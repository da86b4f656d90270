import Mathlib.Data.Set.Card
import Mathlib.Order.Lattice.Nat
import TermStructure.Proofs.Market.Freezing

/-!
# Who is in the audience

A registry goes through registrations, unregistrations, notifications and deaths of observers, in any order. Whoever is
alive is registered with it if it has registered since it last unregistered. Those that are told are these, each once,
in the order in which they first registered since. News travel without changing who tells whom, so telling an audience
is telling its members one after the other.
-/

namespace TermStructure

namespace Registry

theorem register_register (r : Registry) (o : Observer) : (r.register o).register o = r.register o :=
  if_pos (mem_register.mpr (.inr rfl))

theorem unregister_of_not_mem {r : Registry} {o : Observer} (h : o ∉ r.observers) : r.unregister o = r := by
  have hall : ∀ p ∈ r.observers, decide (p ≠ o) = true := fun p hp => decide_eq_true fun heq => h (heq ▸ hp)
  unfold unregister
  rw [List.filter_eq_self.mpr hall]

/-! ### Histories -/

/-- Something that happens to a registry. -/
inductive Event where
  | register (o : Observer)
  | unregister (o : Observer)
  | notify
  | death (o : Observer)
deriving DecidableEq

/-- When an observer registered since it last unregistered. -/
def registrations (h : List Event) (o : Observer) : Set Nat :=
  { i | h[i]? = some (.register o) ∧ ∀ j, i < j → h[j]? ≠ some (.unregister o) }

/-- When an observer first registered since it last unregistered. -/
noncomputable def since (h : List Event) (o : Observer) : Nat := sInf (registrations h o)

variable {h : List Event} {e : Event} {o p : Observer} {i : Nat}

theorem Event.register_ne_unregister : Event.register o ≠ .unregister p := nofun

theorem lt_length_of_mem (hi : i ∈ registrations h o) : i < h.length := (List.getElem?_eq_some_iff.mp hi.1).1

theorem registrations_nil (o : Observer) : registrations [] o = ∅ :=
  Set.eq_empty_of_forall_notMem fun _ hi => Nat.not_lt_zero _ (lt_length_of_mem hi)

/-- The last event of a history undoes all registrations, or is one more, or has nothing to do with them. -/
theorem mem_registrations_append : i ∈ registrations (h ++ [e]) o ↔
    e ≠ .unregister o ∧ (i ∈ registrations h o ∨ (e = .register o ∧ i = h.length)) := by
  have hat (j : Nat) (x : Event) : (h ++ [e])[j]? = some x ↔ h[j]? = some x ∨ (j = h.length ∧ e = x) := by
    rcases Nat.lt_trichotomy j h.length with hj | rfl | hj
    · rw [List.getElem?_append_left hj]
      exact (or_iff_left fun heq => hj.ne heq.1).symm
    · simp
    · rw [List.getElem?_eq_none (by simp; omega), List.getElem?_eq_none hj.le]
      simp [hj.ne']
  constructor
  · rintro ⟨hi, hlast⟩
    rw [hat] at hi
    constructor
    · rintro rfl
      rcases hi with hi | ⟨-, hi⟩
      · exact hlast h.length (List.getElem?_eq_some_iff.mp hi).1 ((hat _ _).mpr (.inr ⟨rfl, rfl⟩))
      · cases hi
    · refine hi.imp (fun hi => ⟨hi, fun j hj hu => hlast j hj ((hat _ _).mpr (.inl hu))⟩) And.symm
  · rintro ⟨he, hi | ⟨hr, rfl⟩⟩
    · exact ⟨(hat _ _).mpr (.inl hi.1), fun j hj hu => ((hat _ _).mp hu).elim (hi.2 j hj) fun heq => he heq.2⟩
    · refine ⟨(hat _ _).mpr (.inr ⟨rfl, hr⟩), fun j hj hu => ?_⟩
      rcases (hat _ _).mp hu with hu | ⟨-, hu⟩
      · exact (List.getElem?_eq_some_iff.mp hu).1.not_gt hj
      · exact he hu

theorem registrations_append_of_ne (hr : e ≠ .register o) (hu : e ≠ .unregister o) :
    registrations (h ++ [e]) o = registrations h o := by
  ext i
  simp only [mem_registrations_append, hr, hu, ne_eq, not_false_eq_true, true_and, false_and, or_false]

theorem since_append (hu : e ≠ .unregister o) (hne : (registrations h o).Nonempty) :
    since (h ++ [e]) o = since h o := by
  refine IsLeast.csInf_eq ⟨mem_registrations_append.mpr ⟨hu, .inl (Nat.sInf_mem hne)⟩, fun i hi => ?_⟩
  rcases (mem_registrations_append.mp hi).2 with hi | ⟨-, rfl⟩
  · exact Nat.sInf_le hi
  · exact (lt_length_of_mem (Nat.sInf_mem hne)).le

theorem since_register (hnone : registrations h o = ∅) : since (h ++ [.register o]) o = h.length := by
  refine IsLeast.csInf_eq ⟨mem_registrations_append.mpr ⟨Event.register_ne_unregister, .inr ⟨rfl, rfl⟩⟩, fun i hi => ?_⟩
  rcases (mem_registrations_append.mp hi).2 with hi | ⟨-, rfl⟩
  · rw [hnone] at hi
    cases hi
  · exact Nat.le_refl _

/-- Those that are alive stay in order when another one registers. -/
theorem pairwise_register {r : Registry} {alive : Observer → Bool} (o : Observer)
    (hordered : (r.observers.filter alive).Pairwise fun p q => since h p < since h q)
    (hregistered : ∀ p ∈ r.observers, (registrations h p).Nonempty)
    (hheld : ∀ p, alive p = true → (registrations h p).Nonempty → p ∈ r.observers) :
    ((r.register o).observers.filter alive).Pairwise
      fun p q => since (h ++ [.register o]) p < since (h ++ [.register o]) q := by
  have hkept {p : Observer} (hp : p ∈ r.observers) : since (h ++ [.register o]) p = since h p :=
    since_append Event.register_ne_unregister (hregistered p hp)
  have hfirst : (r.observers.filter alive).Pairwise
      fun p q => since (h ++ [.register o]) p < since (h ++ [.register o]) q := by
    refine hordered.imp_of_mem fun hp hq hlt => ?_
    rwa [hkept (List.mem_of_mem_filter hp), hkept (List.mem_of_mem_filter hq)]
  unfold register
  split
  · exact hfirst
  · rename_i ho
    rw [List.filter_append, List.pairwise_append]
    refine ⟨hfirst, (List.pairwise_singleton _ o).filter _, fun p hp q hq => ?_⟩
    obtain ⟨hq, hlive⟩ := List.mem_filter.mp hq
    obtain rfl := List.mem_singleton.mp hq
    -- Whoever is alive and not there has undone each registration, so this one is the first since.
    have hnone : registrations h q = ∅ := by
      by_contra hne
      exact ho (hheld q hlive (Set.nonempty_iff_ne_empty.mpr hne))
    have hp := List.mem_of_mem_filter hp
    rw [hkept hp, since_register hnone]
    exact lt_length_of_mem (Nat.sInf_mem (hregistered p hp))

end Registry

namespace Market

open Registry (Event registrations since)

variable {α : Type} {m m' m'' : Market α} {s t : Subject} {o p : Observer} {i : Nat}

theorem alive_enrol (m : Market α) (s : Subject) (f : Registry → Registry) : (m.enrol s f).alive = m.alive := by
  cases s with
  | quote j => exact alive_enrol_quote m j f
  | observable j => exact alive_congr rfl fun x => by cases x <;> rfl
  | controller x => exact alive_control m x _

theorem enrol_enrol (m : Market α) (s : Subject) (f g : Registry → Registry) :
    (m.enrol s f).enrol s g = m.enrol s fun r => g (f r) := by
  cases s with
  | quote j => simp only [enrol, Slots.modify_modify]
  | observable j => simp only [enrol, Slots.modify_modify]
  | controller x => exact control_control m x _ _

theorem enrol_eq_self {f : Registry → Registry} (h : ∀ r, m.registry? s = some r → f r = r) : m.enrol s f = m := by
  rcases s with j | j | (j | j)
  case quote =>
    refine congrArg (fun quotes => { m with quotes }) (Slots.modify_eq_self fun q hq => ?_)
    rw [h q.observers (by simp only [hq, registry?, Option.map_some])]
  case observable => exact congrArg (fun observables => { m with observables }) (Slots.modify_eq_self h)
  case controller.own =>
    refine congrArg (fun controllers => { m with controllers }) (Slots.modify_eq_self fun c hc => ?_)
    rw [h c.observers (by simp only [hc, registry?, controller?, Option.map_some])]
  case controller.curve =>
    refine congrArg (fun curves => { m with curves }) (Slots.modify_eq_self fun c hc => ?_)
    rw [PiecewiseCurve.control, h c.controller.observers (by simp only [hc, registry?, controller?, Option.map_some])]

/-! ### News -/

/-- Who is alive and who tells whom is the same in both markets. -/
structure SameNews (m m' : Market α) : Prop where
  alive : m'.alive = m.alive
  frozen : ∀ x, (m'.controller? x).map (·.frozen) = (m.controller? x).map (·.frozen)
  audience : ∀ s, m'.audience s = m.audience s
  depth : m'.depth = m.depth

namespace SameNews

theorem refl (m : Market α) : SameNews m m := ⟨rfl, fun _ => rfl, fun _ => rfl, rfl⟩

theorem trans (h : SameNews m m') (h' : SameNews m' m'') : SameNews m m'' :=
  ⟨h'.alive.trans h.alive, fun x => (h'.frozen x).trans (h.frozen x), fun s => (h'.audience s).trans (h.audience s),
    h'.depth.trans h.depth⟩

theorem successors (h : SameNews m m') (o : Observer) : m'.successors o = m.successors o := by
  cases o with
  | counter j => rfl
  | relay x => exact h.audience _
  | controller x =>
    have hfrozen := h.frozen x
    unfold Market.successors
    dsimp only
    rw [h.audience]
    cases hx : m.controller? x with
    | none =>
      rw [hx, Option.map_none, Option.map_eq_none_iff] at hfrozen
      rw [hfrozen]
    | some c =>
      rw [hx, Option.map_some, Option.map_eq_some_iff] at hfrozen
      obtain ⟨d, hd, hcd⟩ := hfrozen
      rw [hd]
      dsimp only
      rw [hcd]

theorem chain (h : SameNews m m') (k : Nat) (o : Observer) : m'.chain k o = m.chain k o := by
  induction k generalizing o with
  | zero => rfl
  | succ k ih => simp only [Market.chain, h.successors, funext ih]

end SameNews

theorem frozen_hear (c : Controller α) : c.hear.frozen = c.frozen := by
  unfold Controller.hear
  split <;> rfl

theorem frozen_control (m : Market α) (x y : ControllerId) {f : Controller α → Controller α}
    (hf : ∀ c, (f c).frozen = c.frozen) :
    ((m.control x f).controller? y).map (·.frozen) = (m.controller? y).map (·.frozen) := by
  rw [controller?_control]
  split <;> simp [Function.comp_def, hf]

theorem depth_control (m : Market α) (x : ControllerId) (f : Controller α → Controller α) :
    (m.control x f).depth = m.depth := by
  cases x <;> simp [depth, control]

theorem sameNews_prune (m : Market α) (s : Subject) : SameNews m (m.enrol s (·.prune m.alive)) := by
  refine ⟨alive_enrol m s _, fun x => ?_, fun t => ?_, ?_⟩
  · cases s with
    | quote j | observable j => cases x <;> rfl
    | controller y => exact frozen_control m y x fun _ => rfl
  · rw [audience_eq, audience_eq, alive_enrol, enrolment_prune]
    split
    · rw [List.filter_filter]
      simp only [Bool.and_self]
    · rfl
  · cases s with
    | quote j | observable j => rfl
    | controller y => exact depth_control m y _

theorem Spreads.sameNews (h : Spreads m m') : SameNews m m' := by
  induction h with
  | refl => exact .refl m
  | @count n j _ ih =>
    have halive : ({ n with counters := n.counters.modify j (· + 1) } : Market α).alive = n.alive := by
      funext o
      cases o with
      | counter k =>
        simp only [Market.alive, Slots.has, Slots.get?_modify]
        split <;> simp
      | controller x | relay x => cases x <;> rfl
    exact ih.trans ⟨halive, fun x => by cases x <;> rfl,
      fun s => audience_congr halive (by rcases s with j | j | (j | j) <;> rfl), rfl⟩
  | @hear n x _ ih =>
    exact ih.trans ⟨alive_control n x _, fun y => frozen_control n x y frozen_hear,
      audience_control n x Controller.observers_hear, depth_control n x _⟩
  | prune x _ ih => exact ih.trans (sameNews_prune _ _)

/-- Whoever is told first does not change whom the others tell. -/
theorem tell_cons (m : Market α) (o : Observer) (os : List Observer) : m.tell (o :: os) = (m.tell [o]).tell os := by
  have h := (spreads_tell m [o]).sameNews
  have hchain : (m.tell [o]).chain (m.tell [o]).depth = m.chain m.depth := by
    rw [h.depth]
    exact funext (h.chain _)
  calc m.tell (o :: os)
    _ = (os.flatMap (m.chain m.depth)).foldl deliver ((m.chain m.depth o).foldl deliver m) := by
      rw [tell, List.flatMap_cons, List.foldl_append]
    _ = (os.flatMap (m.chain m.depth)).foldl deliver (m.tell [o]) := by rw [tell, List.flatMap_singleton]
    _ = (m.tell [o]).tell os := by rw [tell.eq_def _ os, hchain]

theorem tell_eq_foldl (m : Market α) (os : List Observer) : m.tell os = os.foldl (fun n o => n.tell [o]) m := by
  induction os generalizing m with
  | nil => rfl
  | cons o os ih => rw [tell_cons, ih, List.foldl_cons]

/-! ### What a notification leaves -/

theorem Spreads.enrolment_eq (h : Spreads m m') (hs : ∀ o ∈ m.enrolment s, m.alive o = true) :
    m'.enrolment s = m.enrolment s := by
  induction h with
  | refl => rfl
  | count j _ ih =>
    rw [← ih]
    rcases s with j | j | (j | j) <;> rfl
  | hear x _ ih => rw [← ih, enrolment, registry_control _ x Controller.observers_hear, enrolment]
  | prune x hn ih =>
    rw [enrolment_prune, ih, hn.sameNews.alive, List.filter_eq_self.mpr hs, ite_self]

theorem enrolment_notify (m : Market α) (s : Subject) : (m.notify s).enrolment s = (m.enrolment s).filter m.alive := by
  have hpruned : (m.enrol s (·.prune m.alive)).enrolment s = (m.enrolment s).filter m.alive := by
    rw [enrolment_prune, if_pos rfl]
  rw [← hpruned]
  refine (spreads_tell _ _).enrolment_eq fun o ho => ?_
  rw [hpruned] at ho
  rw [alive_enrol]
  exact List.of_mem_filter ho

theorem sameNews_notify (m : Market α) (s : Subject) : SameNews m (m.notify s) :=
  (sameNews_prune m s).trans (spreads_tell _ _).sameNews

/-- The members of the audience are told one after the other. -/
theorem notify_eq_foldl (m : Market α) (s : Subject) :
    m.notify s = (m.audience s).foldl (fun n o => n.tell [o]) (m.enrol s (·.prune m.alive)) :=
  tell_eq_foldl _ _

/-! ### Deaths -/

/-- What an observer stands for goes: a counter, a controller, or a curve. -/
def dismiss (m : Market α) : Observer → Market α
  | .counter i => { m with counters := m.counters.clear i }
  | .controller (.own i) | .relay (.own i) => { m with controllers := m.controllers.clear i }
  | .controller (.curve i) | .relay (.curve i) => m.dropCurve i

/-- A subject is there, and so is its registry. -/
def isThere (m : Market α) (s : Subject) : Bool := Option.isSome <| m.registry? s

/-- Nobody comes alive and nobody is registered, and a registry that is still there has lost none of those that are
    alive. -/
structure Wanes (m m' : Market α) (s : Subject) : Prop where
  alive : ∀ o, m'.alive o = true → m.alive o = true
  there : m'.isThere s = true → m.isThere s = true
  sublist : (m'.enrolment s).Sublist (m.enrolment s)
  keeps : m'.isThere s = true → ∀ o ∈ m.enrolment s, m'.alive o = true → o ∈ m'.enrolment s

namespace Wanes

theorem of_eq (ha : ∀ o, m'.alive o = true → m.alive o = true) (hr : m'.registry? s = m.registry? s) :
    Wanes m m' s := by
  have he : m'.enrolment s = m.enrolment s := by rw [enrolment, hr, enrolment]
  exact ⟨ha, by rw [isThere, hr]; exact id, by rw [he], fun _ o ho _ => by rwa [he]⟩

theorem of_none (ha : ∀ o, m'.alive o = true → m.alive o = true) (hr : m'.registry? s = none) : Wanes m m' s := by
  have he : m'.enrolment s = [] := by rw [enrolment, hr]; rfl
  refine ⟨ha, fun h => ?_, by rw [he]; exact List.nil_sublist _, fun h => ?_⟩ <;>
  · rw [isThere, hr] at h
    cases h

end Wanes

@[simp] theorem isThere_enrol (m : Market α) (s t : Subject) (f : Registry → Registry) :
    (m.enrol s f).isThere t = m.isThere t := by
  unfold isThere
  rw [registry_enrol]
  split
  · rw [Option.isSome_map]
  · rfl

theorem Spreads.isThere (h : Spreads m m') (s : Subject) : m'.isThere s = m.isThere s := by
  induction h with
  | refl => rfl
  | count j _ ih =>
    rw [← ih]
    rcases s with j | j | (j | j) <;> rfl
  | hear x _ ih => rw [← ih, Market.isThere, registry_control _ x Controller.observers_hear, Market.isThere]
  | prune x _ ih => rw [isThere_enrol, ih]

theorem isThere_notify (m : Market α) (s : Subject) : (m.notify s).isThere s = m.isThere s := by
  rw [notify, (spreads_tell _ _).isThere, isThere_enrol]

theorem registry_notify (m : Market α) (s : Subject) :
    registry? (m.notify s) s = (Option.map (·.prune m.alive) <| m.registry? s) := by
  have hthere := isThere_notify m s
  have hobservers := enrolment_notify m s
  unfold isThere at hthere
  unfold enrolment at hobservers
  cases hr : m.registry? s with
  | none =>
    rw [hr] at hthere
    exact Option.isNone_iff_eq_none.mp (Option.isSome_eq_false_iff.mp hthere)
  | some r =>
    rw [hr] at hthere hobservers
    obtain ⟨q, hq⟩ := Option.isSome_iff_exists.mp hthere
    rw [hq] at hobservers ⊢
    exact congrArg (some ∘ Registry.mk) hobservers

theorem wanes_notify (m : Market α) (s : Subject) : Wanes m (m.notify s) s := by
  have halive := (sameNews_notify m s).alive
  refine ⟨fun o ho => by rwa [halive] at ho, fun h => ?_, ?_, fun _ o ho hlive => ?_⟩
  · rwa [isThere_notify] at h
  · rw [enrolment_notify]
    exact List.filter_sublist
  · rw [halive] at hlive
    rw [enrolment_notify]
    exact List.mem_filter.mpr ⟨ho, hlive⟩

theorem isSome_of_clear {β : Type} {l : Slots β} {j : Nat} (h : ((l.clear i).get? j).isSome = true) :
    (l.get? j).isSome = true := by
  rw [Slots.get?_clear] at h
  split at h
  · cases h
  · exact h

theorem wanes_dropCounter (m : Market α) (i : Nat) (s : Subject) :
    Wanes m { m with counters := m.counters.clear i } s := by
  refine .of_eq (fun o ho => ?_) (by rcases s with j | j | (j | j) <;> rfl)
  cases o with
  | counter j => exact isSome_of_clear ho
  | controller x | relay x => cases x <;> exact ho

theorem wanes_dropController (m : Market α) (i : Nat) (s : Subject) :
    Wanes m { m with controllers := m.controllers.clear i } s := by
  have halive (o : Observer) (ho : ({ m with controllers := m.controllers.clear i } : Market α).alive o = true) :
      m.alive o = true := by
    rcases o with j | (j | j) | (j | j)
    case controller.own | relay.own => exact isSome_of_clear ho
    all_goals exact ho
  rcases s with j | j | (j | j)
  case controller.own =>
    by_cases hij : i = j
    · exact .of_none halive (by simp only [Slots.get?_clear, registry?, controller?, if_pos hij, Option.map_none])
    · exact .of_eq halive (by simp only [Slots.get?_clear, registry?, controller?, if_neg hij])
  all_goals exact .of_eq halive rfl

theorem alive_of_dropCurve (ho : (m.dropCurve i).alive o = true) : m.alive o = true := by
  cases hc : m.curves.get? i with
  | none => simpa only [dropCurve, hc] using ho
  | some c =>
    obtain ⟨n, hn, hd⟩ := dropCurve_eq hc
    rw [← hn.alive]
    rw [hd] at ho
    rcases o with j | (j | j) | (j | j)
    case controller.curve | relay.curve =>
      simp only [Market.alive, controller?, Option.isSome_map] at ho ⊢
      exact isSome_of_clear ho
    all_goals exact ho

theorem wanes_dropCurve (m : Market α) (i : Nat) (s : Subject) : Wanes m (m.dropCurve i) s := by
  cases hc : m.curves.get? i with
  | none =>
    have hd : m.dropCurve i = m := by simp only [dropCurve, hc]
    rw [hd]
    exact .of_eq (fun _ => id) rfl
  | some c =>
    by_cases hq : ∃ id, .quote id = s
    · obtain ⟨id, rfl⟩ := hq
      refine ⟨fun _ => alive_of_dropCurve, fun h => ?_, sublist_enrolment_dropCurve m i _, fun _ o ho hlive => ?_⟩
      · have hhas := has_congr (board_dropCurve m i) id
        simp only [Slots.has] at hhas
        simp only [isThere, registry?, Option.isSome_map] at h ⊢
        rwa [← hhas]
      · -- The curve leaves the registries of its quotes before it goes, but so do only those that go with it.
        refine (mem_enrolment_dropCurve hc).mpr ⟨ho, fun hheeds => ?_⟩
        rw [alive_of_owner _ hheeds.1, get?_dropCurve] at hlive
        cases hlive
    · obtain ⟨n, hn, hd⟩ := dropCurve_eq hc
      have hr := hn.registry (not_exists.mp hq)
      rcases s with j | j | (j | j)
      case controller.curve =>
        by_cases hij : i = j
        · refine .of_none (fun _ => alive_of_dropCurve) ?_
          simp only [← hij, registry?, controller?, get?_dropCurve, Option.map_none]
        · refine .of_eq (fun _ => alive_of_dropCurve) ?_
          rw [← hr, hd]
          simp only [Slots.get?_clear, registry?, controller?, if_neg hij]
      all_goals
        refine .of_eq (fun _ => alive_of_dropCurve) ?_
        rw [← hr, hd]
        rfl

theorem wanes_dismiss (m : Market α) (o : Observer) (s : Subject) : Wanes m (m.dismiss o) s := by
  rcases o with j | (j | j) | (j | j)
  · exact wanes_dropCounter m j s
  · exact wanes_dropController m j s
  · exact wanes_dropCurve m j s
  · exact wanes_dropController m j s
  · exact wanes_dropCurve m j s

/-! ### Histories -/

/-- The market after something has happened to the registry of a subject. -/
def occur (m : Market α) (s : Subject) : Event → Market α
  | .register o => m.watch o s
  | .unregister o => m.unwatch o s
  | .notify => m.notify s
  | .death o => m.dismiss o

/-- The market after a history of the registry of a subject. -/
def after (m : Market α) (s : Subject) (h : List Event) : Market α := h.foldl (fun n e => n.occur s e) m

theorem after_append (m : Market α) (s : Subject) (h : List Event) (e : Event) :
    m.after s (h ++ [e]) = (m.after s h).occur s e :=
  List.foldl_append ..

/-- A registry that has gone does not come back. -/
theorem isThere_of_occur {e : Event} (h : (m.occur s e).isThere s = true) : m.isThere s = true := by
  cases e with
  | register o | unregister o => exact (isThere_enrol m s s _).symm.trans h
  | notify => exact (wanes_notify m s).there h
  | death o => exact (wanes_dismiss m o s).there h

/-- The registry of a subject is as its history says. -/
structure Agrees (m : Market α) (s : Subject) (h : List Event) : Prop where
  nodup : (m.enrolment s).Nodup
  registered : ∀ o ∈ m.enrolment s, (registrations h o).Nonempty
  held : ∀ o, m.alive o = true → (registrations h o).Nonempty → o ∈ m.enrolment s
  ordered : (m.audience s).Pairwise fun o p => since h o < since h p

namespace Agrees

variable {h : List Event}

theorem nil (hs : m.registry? s = some {}) : Agrees m s [] := by
  have hnone : m.enrolment s = [] := by rw [enrolment, hs]; rfl
  refine ⟨by simp [hnone], by simp [hnone], fun o _ ho => ?_, by simp [audience_eq, hnone]⟩
  rw [Registry.registrations_nil] at ho
  exact absurd ho Set.not_nonempty_empty

/-- Notifications and deaths have nothing to do with registrations. -/
theorem wanes (hm : Agrees m s h) (hw : Wanes m m' s) (hs : m'.isThere s = true) {e : Event}
    (he : ∀ o, e ≠ .register o ∧ e ≠ .unregister o) : Agrees m' s (h ++ [e]) := by
  have hsame (o : Observer) : registrations (h ++ [e]) o = registrations h o :=
    Registry.registrations_append_of_ne (he o).1 (he o).2
  refine ⟨hm.nodup.sublist hw.sublist, fun o ho => ?_, fun o ho hr => ?_, ?_⟩
  · rw [hsame]
    exact hm.registered o (hw.sublist.subset ho)
  · rw [hsame] at hr
    exact hw.keeps hs o (hm.held o (hw.alive o ho) hr) ho
  · have hsub : (m'.audience s).Sublist (m.audience s) := by
      rw [audience_eq, audience_eq]
      exact (hw.sublist.filter _).trans (List.monotone_filter_right _ hw.alive)
    simp only [since, hsame]
    exact hm.ordered.sublist hsub

theorem register (hm : Agrees m s h) {r : Registry} (hr : m.registry? s = some r) (o : Observer) :
    Agrees (m.watch o s) s (h ++ [.register o]) := by
  have halive : (m.watch o s).alive = m.alive := alive_enrol m s _
  have hold : m.enrolment s = r.observers := by rw [enrolment, hr]; rfl
  have hnew : (m.watch o s).enrolment s = (r.register o).observers := by
    rw [enrolment, watch, registry_enrol, if_pos rfl, hr]
    rfl
  refine ⟨?_, fun p hp => ?_, fun p hp hne => ?_, ?_⟩
  · rw [hnew]
    exact nodup_register (hold ▸ hm.nodup) o
  · rw [hnew, Registry.mem_register, ← hold] at hp
    rcases hp with hp | rfl
    · obtain ⟨i, hi⟩ := hm.registered p hp
      exact ⟨i, Registry.mem_registrations_append.mpr ⟨Event.register_ne_unregister, .inl hi⟩⟩
    · exact ⟨h.length, Registry.mem_registrations_append.mpr ⟨Event.register_ne_unregister, .inr ⟨rfl, rfl⟩⟩⟩
  · rw [hnew, Registry.mem_register, ← hold]
    by_cases hpo : p = o
    · exact .inr hpo
    · rw [Registry.registrations_append_of_ne (fun heq => hpo (Event.register.inj heq).symm)
        Event.register_ne_unregister] at hne
      exact .inl (hm.held p (halive ▸ hp) hne)
  · have hordered := hm.ordered
    rw [audience_eq, hold] at hordered
    rw [audience_eq, hnew, halive]
    exact Registry.pairwise_register o hordered (hold ▸ hm.registered) (hold ▸ hm.held)

theorem unregister (hm : Agrees m s h) (o : Observer) : Agrees (m.unwatch o s) s (h ++ [.unregister o]) := by
  have halive : (m.unwatch o s).alive = m.alive := alive_enrol m s _
  have hnew : (m.unwatch o s).enrolment s = (m.enrolment s).filter (· ≠ o) := by
    rw [enrolment, unwatch, registry_enrol, if_pos rfl, enrolment]
    cases m.registry? s <;> rfl
  have hother {p : Observer} (hp : p ≠ o) : registrations (h ++ [.unregister o]) p = registrations h p :=
    Registry.registrations_append_of_ne Event.register_ne_unregister.symm fun heq => hp (Event.unregister.inj heq).symm
  have hmem {p : Observer} : p ∈ (m.unwatch o s).enrolment s ↔ p ∈ m.enrolment s ∧ p ≠ o := by
    rw [hnew, List.mem_filter, decide_eq_true_iff]
  have hsub : ((m.unwatch o s).enrolment s).Sublist (m.enrolment s) := sublist_enrolment_unwatch m o s s
  refine ⟨hm.nodup.sublist hsub, fun p hp => ?_, fun p hp hne => ?_, ?_⟩
  · rw [hother (hmem.mp hp).2]
    exact hm.registered p (hmem.mp hp).1
  · obtain ⟨i, hi⟩ := hne
    have hpo : p ≠ o := fun heq => (Registry.mem_registrations_append.mp hi).1 (heq ▸ rfl)
    rw [hother hpo] at hi
    exact hmem.mpr ⟨hm.held p (halive ▸ hp) ⟨i, hi⟩, hpo⟩
  · have haudience : (((m.unwatch o s).enrolment s).filter m.alive).Sublist (m.audience s) := by
      rw [audience_eq m]
      exact hsub.filter _
    rw [audience_eq, halive]
    refine (hm.ordered.sublist haudience).imp_of_mem fun hp hq hlt => ?_
    unfold since
    rwa [hother (hmem.mp (List.mem_of_mem_filter hp)).2, hother (hmem.mp (List.mem_of_mem_filter hq)).2]

theorem occur (hm : Agrees m s h) {e : Event} (hs : (m.occur s e).isThere s = true) :
    Agrees (m.occur s e) s (h ++ [e]) := by
  cases e with
  | register o =>
    obtain ⟨r, hr⟩ := Option.isSome_iff_exists.mp (isThere_of_occur hs)
    exact hm.register hr o
  | unregister o => exact hm.unregister o
  | notify => exact hm.wanes (wanes_notify m s) hs fun _ => ⟨nofun, nofun⟩
  | death o => exact hm.wanes (wanes_dismiss m o s) hs fun _ => ⟨nofun, nofun⟩

end Agrees

theorem agrees_after (hm : m.registry? s = some {}) (h : List Event)
    (hs : (m.after s h).isThere s = true) : Agrees (m.after s h) s h := by
  induction h using List.reverseRecOn with
  | nil => exact .nil hm
  | append_singleton h e ih =>
    rw [after_append] at hs ⊢
    exact (ih (isThere_of_occur hs)).occur hs

theorem Agrees.mem_audience_iff {h : List Event} (hm : Agrees m s h) :
    o ∈ m.audience s ↔ m.alive o = true ∧ (registrations h o).Nonempty := by
  rw [audience_eq, List.mem_filter]
  exact ⟨fun ho => ⟨ho.2, hm.registered o ho.1⟩, fun ho => ⟨hm.held o ho.1 ho.2, ho.1⟩⟩

/-- Whatever has happened to a registry that was empty, it holds nobody twice. Its audience are those that are alive
    and have registered since they last unregistered, each once and in the order in which they first registered since.
    A notification tells them one after the other and has the registry forget the others, but it changes no order. They
    are as many as are counted. To register again changes nothing, nor does it to unregister who is not held. -/
theorem audience_after (hm : m.registry? s = some {}) (h : List Event) {r : Registry}
    (hr : registry? (m.after s h) s = some r) :
    let n := m.after s h
    r.observers.Nodup ∧ (∀ o ∈ r.observers, (registrations h o).Nonempty) ∧
      (n.audience s).Nodup ∧
      (∀ o, o ∈ n.audience s ↔ n.alive o = true ∧ (registrations h o).Nonempty) ∧
      ((n.audience s).Pairwise fun o p => since h o < since h p) ∧
      n.notify s = (n.audience s).foldl (fun k o => k.tell [o]) (n.enrol s (·.prune n.alive)) ∧
      registry? (n.notify s) s = some ⟨r.observers.filter n.alive⟩ ∧
      r.count n.alive = { o | n.alive o = true ∧ (registrations h o).Nonempty }.ncard ∧
      (∀ o, (n.watch o s).watch o s = n.watch o s) ∧
      ∀ o, o ∉ r.observers → n.unwatch o s = n := by
  intro n
  have hn : Agrees n s h := agrees_after hm h (Option.isSome_of_eq_some hr)
  have henrolment : n.enrolment s = r.observers := by rw [enrolment, hr]; rfl
  have haudience : n.audience s = r.live n.alive := by rw [audience_eq, henrolment]; rfl
  have hnodup : (n.audience s).Nodup := by
    rw [audience_eq]
    exact hn.nodup.filter _
  have hcount : r.count n.alive = { o | n.alive o = true ∧ (registrations h o).Nonempty }.ncard := by
    have hset : { o | n.alive o = true ∧ (registrations h o).Nonempty } = ((n.audience s).toFinset : Set Observer) := by
      ext o
      rw [List.coe_toFinset, Set.mem_ofPred_eq, Set.mem_ofPred_eq, hn.mem_audience_iff]
    rw [hset, Set.ncard_coe_finset, List.toFinset_card_of_nodup hnodup, haudience]
    rfl
  refine ⟨henrolment ▸ hn.nodup, henrolment ▸ hn.registered, hnodup, fun o => hn.mem_audience_iff, hn.ordered,
    notify_eq_foldl n s, ?_, hcount, fun o => ?_, fun o ho => ?_⟩
  · rw [registry_notify, hr]
    rfl
  · rw [watch, watch, enrol_enrol]
    simp only [Registry.register_register]
  · refine enrol_eq_self fun q hq => ?_
    rw [hr] at hq
    cases hq
    exact Registry.unregister_of_not_mem ho

/-- An observable, two counters and a controller. -/
def watchers : Market ℚ := acts {} [.newObservable, .newCounter, .newCounter, .newController]

/-- A counter registers twice, and once more when it has gone; the controller leaves and comes back. -/
def arrivals : List Event :=
  [.register (.counter 0), .register (.controller (.own 0)), .register (.counter 0), .unregister (.controller (.own 0)),
   .register (.counter 1), .register (.controller (.own 0)), .death (.counter 0), .notify, .register (.counter 0)]

theorem audience_after_arrivals :
    let n := watchers.after (.observable 0) arrivals
    n.registry? (.observable 0) = some ⟨[.counter 1, .controller (.own 0), .counter 0]⟩ ∧
      n.audience (.observable 0) = [.counter 1, .controller (.own 0)] ∧
      n.notify (.observable 0)
        = ((n.enrol (.observable 0) (·.prune n.alive)).tell [.counter 1]).tell [.controller (.own 0)] ∧
      since arrivals (.counter 1) < since arrivals (.controller (.own 0)) ∧
      { o | n.alive o = true ∧ (registrations arrivals o).Nonempty }.ncard = 2 := by
  intro n
  have hr : n.registry? (.observable 0) = some ⟨[.counter 1, .controller (.own 0), .counter 0]⟩ := by decide +kernel
  have haudience : n.audience (.observable 0) = [.counter 1, .controller (.own 0)] := by decide +kernel
  obtain ⟨-, -, -, -, hordered, hnotify, -, hcount, -⟩ := audience_after (m := watchers) (by decide +kernel) arrivals hr
  rw [haudience] at hordered hnotify
  exact ⟨hr, haudience, hnotify, List.rel_of_pairwise_cons hordered List.mem_cons_self,
    hcount.symm.trans (by decide +kernel)⟩

end Market

end TermStructure
