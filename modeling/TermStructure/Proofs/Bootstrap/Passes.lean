import TermStructure.Proofs.Bootstrap.Stages
import TermStructure.Proofs.RootFinding.Problem

/-!
# Passes

What the passes of a run do, seeded or not: which pillars they visit and with what at hand, and which searches
are made there.
-/

namespace TermStructure

theorem ok_of_map {ε β γ : Type} {x : Except ε β} {f : β → γ} {c : γ} (h : x.map f = .ok c) :
    ∃ b, x = .ok b ∧ c = f b := by
  cases x with
  | error e => cases h
  | ok b => exact ⟨b, rfl, (Except.ok.inj h).symm⟩

theorem error_of_bind {ε β γ : Type} {x : Except ε β} {f : β → Except ε γ} {e : ε} (h : (x >>= f) = .error e) :
    x = .error e ∨ ∃ b, x = .ok b ∧ f b = .error e := by
  cases x with
  | error e' =>
    cases h
    exact .inl rfl
  | ok b => exact .inr ⟨b, rfl, h⟩

theorem error_of_mapError {ε ε' β : Type} {x : Except ε β} {f : ε → ε'} {e : ε'} (h : x.mapError f = .error e) :
    ∃ e', x = .error e' ∧ e = f e' := by
  cases x with
  | error e' => exact ⟨e', rfl, (Except.error.inj h).symm⟩
  | ok b => cases h

/-- What a search was told is what the objective says. -/
theorem Search.answer_of_mem_samples {α β : Type} {f : α → β} {read : β → Option α} {t : Search α} {s : α × β}
    (hs : s ∈ (t.run f read).samples) : s.2 = f s.1 := by
  induction t with
  | done result => cases hs
  | sample x next ih =>
    rcases List.mem_cons.mp hs with rfl | hs
    · rfl
    · exact ih _ hs

/-! ### Places -/

namespace BootstrapPlan

variable {α : Type} {plan : BootstrapPlan α} {before : List α} {p : Pillar α} {rest : List (Pillar α)}

/-- There is a node for the anchor and one for each pillar that is behind; the pillars to go are those whose nodes come
    next. -/
structure Placed (plan : BootstrapPlan α) (before : List α) (rest : List (Pillar α)) : Prop where
  pos : 0 < before.length
  rest_eq : rest = plan.pillars.drop (before.length - 1)

namespace Placed

theorem start (plan : BootstrapPlan α) (y : α) : plan.Placed [y] plan.pillars := ⟨Nat.one_pos, rfl⟩

theorem pillar (h : plan.Placed before (p :: rest)) : plan.pillars[before.length - 1]? = some p := by
  rw [← List.head?_drop, ← h.rest_eq]
  rfl

theorem later (h : plan.Placed before (p :: rest)) : rest = plan.pillars.drop before.length := by
  have hpos := h.pos
  have htail := congrArg List.tail h.rest_eq
  rw [List.tail_cons, List.tail_drop] at htail
  rw [htail]
  congr 1
  omega

theorem next (h : plan.Placed before (p :: rest)) (x : α) : plan.Placed (before ++ [x]) rest := by
  refine ⟨?_, ?_⟩
  · rw [List.length_append, List.length_singleton]
    omega
  · rw [List.length_append, List.length_singleton, Nat.add_sub_cancel]
    exact h.later

end Placed

end BootstrapPlan

section
variable {α : Type} [Scalar α]

/-! ### One pillar -/

namespace PillarSite

/-- The times of the nodes of the trial curves. -/
def trialTimes (site : PillarSite α) : List α := site.plan.times.take (site.index + 1 + site.after.length)

/-- The values at the nodes of the trial curve for the value `x`. -/
def trialValues (site : PillarSite α) (x : α) : List α := site.before ++ x :: site.after

/-- The problem that is put to the root finder at a pillar. -/
def problem (site : PillarSite α) (bracket : Bracket α) (allow : Bool) : Problem α (Except (CurveError α) α) where
  objective := site.objective allow
  read := finiteAnswer?
  within := bracket
  settings := site.plan.config.solverSettings

theorem attempt_run (site : PillarSite α) (guess : α) (bracket : Bracket α) (allow : Bool) :
    (site.attempt guess bracket allow).run = (site.problem bracket allow).run site.plan.solver guess := rfl

variable {site : PillarSite α} {guess x : α} {bracket : Bracket α} {Searches : Bracket α → Prop}
  {solve : PillarSolve α}

/-- What the searches at a pillar come to, on intervals of some sort: a root that one of them found, or an
    error. The scheme is to blame only if it refused the nodes of a trial curve, or the helper says so. -/
structure Searched (site : PillarSite α) (guess : α) (Searches : Bracket α → Prop) (solve : PillarSolve α) : Prop where
  attempts : ∀ a ∈ solve.attempts, ∃ b allow, Searches b ∧ a = site.attempt guess b allow
  found : ∀ x, solve.result = .ok x → ∃ a ∈ solve.attempts, ∃ r, a.run.result = .ok r ∧ r.root = x
  refused : ∀ i e, solve.result = .error (.interpolation i e) →
    ∃ a ∈ solve.attempts, ∃ s ∈ a.run.samples, s.2 = .error (.interpolation i e)

theorem Searched.after (h : Searched site guess Searches solve) (hb : Searches bracket) (allow : Bool) :
    Searched site guess Searches (solve.after (site.attempt guess bracket allow)) := by
  refine ⟨fun a ha => ?_, fun x hx => ?_, fun i e hie => ?_⟩
  · rcases List.mem_cons.mp ha with rfl | ha
    · exact ⟨bracket, allow, hb, rfl⟩
    · exact h.attempts a ha
  · obtain ⟨a, ha, hr⟩ := h.found x hx
    exact ⟨a, List.mem_cons_of_mem _ ha, hr⟩
  · obtain ⟨a, ha, hs⟩ := h.refused i e hie
    exact ⟨a, List.mem_cons_of_mem _ ha, hs⟩

/-- A single search, whose root is the result if there is one. -/
theorem searched_single (hb : Searches bracket) {allow : Bool} {result : Except (CurveError α) α}
    (hfound : ∀ x, result = .ok x → ∃ r, (site.attempt guess bracket allow).run.result = .ok r ∧ r.root = x)
    (hrefused : ∀ i e, result = .error (.interpolation i e) →
      (site.attempt guess bracket allow).firstError? = some (.interpolation i e)) :
    Searched site guess Searches ⟨[site.attempt guess bracket allow], result⟩ := by
  refine ⟨fun a ha => ?_, fun x hx => ?_, fun i e hie => ?_⟩
  · rw [List.mem_singleton.mp ha]
    exact ⟨bracket, allow, hb, rfl⟩
  · exact ⟨_, List.mem_singleton_self _, hfound x hx⟩
  · obtain ⟨s, hs, he⟩ := List.exists_of_findSome?_eq_some (hrefused i e hie)
    refine ⟨_, List.mem_singleton_self _, s, hs, ?_⟩
    dsimp only at he
    split at he
    · cases he
    · rename_i hanswer
      rw [hanswer, Option.some.inj he]

/-- The searches are those on the first interval and on what it may be widened to. -/
theorem searched_solveFrom
    (hwiden : ∀ b, Searches b →
      Searches (site.plan.frame.kind.widenedBracket site.plan.config.bracketWidening b))
    (hb : Searches bracket) (guess : α) (allow widened : Bool) :
    Searched site guess Searches (site.solveFrom guess bracket allow widened) := by
  fun_induction solveFrom site guess bracket allow widened
  case case1 => exact searched_single hb nofun nofun
  case case2 ih => exact (ih hb).after hb _
  case case3 hfirst => exact searched_single hb nofun fun i e hie => by cases hie; exact hfirst
  case case4 => exact searched_single hb nofun nofun
  case case5 solution hresult =>
    exact searched_single hb (fun x hx => ⟨solution, hresult, Except.ok.inj hx⟩) nofun
  case case6 => exact searched_single hb nofun nofun
  case case7 => exact searched_single hb nofun nofun
  case case8 ih => exact (ih (hwiden _ hb)).after hb _

end PillarSite

/-! ### One pass -/

namespace BootstrapPlan

variable {plan : BootstrapPlan α} {before seeds : List α} {pillars : List (Pillar α)} {p : Pillar α}
  {pass : Pass α} {site : PillarSite α} {e : CurveError α}

/-- The guess at a pillar: its seed, if there is one. -/
def guess (plan : BootstrapPlan α) (before seeds : List α) (p : Pillar α) : α :=
  match seeds with
  | s :: _ => s
  | [] => plan.frame.kind.initialGuess before.length (before.getLastD 0) p.time

/-- The solve of the next pillar of a pass. -/
def nextSolve (plan : BootstrapPlan α) (before seeds : List α) (p : Pillar α) : PillarSolve α :=
  PillarSite.solve ⟨plan, p, before, seeds.tail⟩ (plan.guess before seeds p)

theorem passFrom_next (plan : BootstrapPlan α) (before seeds : List α) (p : Pillar α) (rest : List (Pillar α)) :
    plan.passFrom before seeds (p :: rest) =
      (plan.nextSolve before seeds p).result >>= fun x =>
        (plan.passFrom (before ++ [x]) seeds.tail rest).map fun pass =>
          { pass with solves := plan.nextSolve before seeds p :: pass.solves } := by
  conv_lhs => unfold passFrom
  dsimp only
  split
  · rename_i e he
    have hnext : (plan.nextSolve before seeds p).result = .error e := he
    rw [hnext]
    rfl
  · rename_i x hx
    have hnext : (plan.nextSolve before seeds p).result = .ok x := hx
    rw [hnext]
    change _ = (plan.passFrom (before ++ [x]) seeds.tail rest).map _
    split
    · rename_i e he
      rw [he]
      rfl
    · rename_i pass hpass
      rw [hpass]
      rfl

/-- A pass from some nodes and seeds on visits a pillar: it is solved there after the roots of those before it. -/
inductive Visits (plan : BootstrapPlan α) :
    (before seeds : List α) → List (Pillar α) → PillarSite α → α → Prop where
  | here {before seeds : List α} {p : Pillar α} {rest : List (Pillar α)} :
      Visits plan before seeds (p :: rest) ⟨plan, p, before, seeds.tail⟩ (plan.guess before seeds p)
  | later {before seeds : List α} {p : Pillar α} {rest : List (Pillar α)} {x : α} {site : PillarSite α} {guess : α}
      (root : (plan.nextSolve before seeds p).result = .ok x)
      (visits : Visits plan (before ++ [x]) seeds.tail rest site guess) :
      Visits plan before seeds (p :: rest) site guess

/-- A pass adds one value for each pillar. -/
theorem passFrom_values (h : plan.passFrom before seeds pillars = .ok pass) :
    ∃ roots, pass.values = before ++ roots ∧ roots.length = pillars.length := by
  induction pillars generalizing before seeds pass with
  | nil =>
    cases h
    exact ⟨[], (List.append_nil _).symm, rfl⟩
  | cons p rest ih =>
    rw [passFrom_next] at h
    obtain ⟨x, -, h⟩ := ok_of_bind h
    obtain ⟨later, hlater, rfl⟩ := ok_of_map h
    obtain ⟨roots, hvalues, hlength⟩ := ih hlater
    exact ⟨x :: roots, by simp [hvalues], by simp [hlength]⟩

/-- A pass that fails does so at a pillar that it visits. -/
theorem visits_of_passFrom_error (h : plan.passFrom before seeds pillars = .error e) :
    ∃ site guess, Visits plan before seeds pillars site guess ∧ (site.solve guess).result = .error e := by
  induction pillars generalizing before seeds with
  | nil => cases h
  | cons p rest ih =>
    rw [passFrom_next] at h
    cases hresult : (plan.nextSolve before seeds p).result with
    | error e' =>
      rw [hresult] at h
      cases h
      exact ⟨_, _, .here, hresult⟩
    | ok x =>
      rw [hresult] at h
      obtain ⟨site, guess, hvisits, herror⟩ := ih (error_of_map h)
      exact ⟨site, guess, .later hresult hvisits, herror⟩

section
variable {I : List α → List α → List (Pillar α) → Prop}

/-- What every pillar that is solved keeps holds wherever the pass gets. -/
theorem Visits.holds
    (hstep : ∀ before seeds p rest x, I before seeds (p :: rest) → (plan.nextSolve before seeds p).result = .ok x →
      I (before ++ [x]) seeds.tail rest)
    {guess : α} (h : Visits plan before seeds pillars site guess) (hstart : I before seeds pillars) :
    ∃ seeds rest, I site.before seeds (site.pillar :: rest) ∧ site.plan = plan ∧ site.after = seeds.tail := by
  induction h with
  | here => exact ⟨_, _, hstart, rfl, rfl⟩
  | later root _ ih => exact ih (hstep _ _ _ _ _ hstart root)

/-- What every pillar that is solved keeps, given how it is solved, holds at the end of a pass. -/
theorem passFrom_holds_of_solves (Solved : PillarSolve α → Prop)
    (hstep : ∀ before seeds p rest x, I before seeds (p :: rest) → Solved (plan.nextSolve before seeds p) →
      (plan.nextSolve before seeds p).result = .ok x → I (before ++ [x]) seeds.tail rest)
    (h : plan.passFrom before seeds pillars = .ok pass) (hsolves : ∀ s ∈ pass.solves, Solved s)
    (hstart : I before seeds pillars) : ∃ seeds, I pass.values seeds [] := by
  induction pillars generalizing before seeds pass with
  | nil =>
    cases h
    exact ⟨seeds, hstart⟩
  | cons p rest ih =>
    rw [passFrom_next] at h
    obtain ⟨x, hx, h⟩ := ok_of_bind h
    obtain ⟨later, hlater, rfl⟩ := ok_of_map h
    have hnext := hstep _ _ _ _ _ hstart (hsolves _ List.mem_cons_self) hx
    have hlast := ih hlater (fun s hs => hsolves s (List.mem_cons_of_mem _ hs)) hnext
    exact hlast

theorem passFrom_holds
    (hstep : ∀ before seeds p rest x, I before seeds (p :: rest) → (plan.nextSolve before seeds p).result = .ok x →
      I (before ++ [x]) seeds.tail rest)
    (h : plan.passFrom before seeds pillars = .ok pass) (hstart : I before seeds pillars) :
    ∃ seeds, I pass.values seeds [] :=
  passFrom_holds_of_solves (fun _ => True)
    (fun before seeds p rest x hI _ hx => hstep before seeds p rest x hI hx)
    h (fun _ _ => trivial) hstart

end

/-- A pass visits a pillar when its turn has come. -/
theorem Visits.placed {anchor guess : α} (h : plan.Visits [anchor] seeds plan.pillars site guess) :
    site.plan = plan ∧ ∃ rest, plan.Placed site.before (site.pillar :: rest) := by
  obtain ⟨-, rest, hplaced, hplan, -⟩ := h.holds (I := fun before _ rest => plan.Placed before rest)
    (fun _ _ _ _ x hplaced _ => hplaced.next x) (.start plan anchor)
  exact ⟨hplan, rest, hplaced⟩

/-! ### The passes of a run -/

/-- What a pass of a run is seeded with: nothing, or the values of a pass before it. -/
inductive Seeds (plan : BootstrapPlan α) : List α → Prop where
  | unseeded : Seeds plan []
  | seeded {seeds : List α} {pass : Pass α} (earlier : Seeds plan seeds) (solved : plan.pass seeds = .ok pass) :
      Seeds plan pass.values.tail

/-- A pass finds a value for each node, and keeps the anchor. -/
theorem pass_values (h : plan.pass seeds = .ok pass) :
    ∃ roots, pass.values = plan.frame.kind.anchorValue :: roots ∧ roots.length = plan.pillars.length :=
  passFrom_values h

/-- A draft made of passes of a run. -/
def Drafted (plan : BootstrapPlan α) (d : Draft α) : Prop := ∃ seeds, plan.Seeds seeds ∧ plan.pass seeds = .ok d.last

variable {d : Draft α} {o : BootstrapOutcome α}

theorem extend_ok {d' : Draft α} (h : plan.extend d = .ok d') :
    plan.pass d.last.values.tail = .ok d'.last ∧ d'.passes = d.passes + 1 := by
  obtain ⟨pass, hpass, h⟩ := ok_of_bind h
  cases h
  exact ⟨hpass, rfl⟩

theorem Drafted.extend {d' : Draft α} (hd : plan.Drafted d) (h : plan.extend d = .ok d') : plan.Drafted d' := by
  obtain ⟨seeds, hseeds, hpass⟩ := hd
  exact ⟨_, .seeded hseeds hpass, (extend_ok h).1⟩

theorem draft_ok (h : plan.draft = .ok d) :
    plan.Drafted d ∧ d.passes = 1 + if plan.scheme.isGlobal then 1 else 0 := by
  obtain ⟨pass, hpass, h⟩ := ok_of_bind h
  have hfirst : plan.Drafted ⟨pass, []⟩ := ⟨[], .unseeded, hpass⟩
  dsimp only at h
  split at h
  · rename_i hglobal
    exact ⟨hfirst.extend h, by rw [(extend_ok h).2, if_pos hglobal]; rfl⟩
  · rename_i hglobal
    cases h
    exact ⟨hfirst, by rw [if_neg hglobal]; rfl⟩

/-- The first check fails and one more pass is made for it. -/
def retries (plan : BootstrapPlan α) : Bool :=
  plan.config.globalCheck && plan.config.globalRetry &&
    match plan.draft >>= fun d => plan.globalCheck d.last.values with
    | .ok (_, report) => report.failure?.isSome
    | .error _ => false

theorem retries_eq (hdraft : plan.draft = .ok d) {curve : NodeCurve α} {report : RepricingReport α}
    (hcheck : plan.globalCheck d.last.values = .ok (curve, report)) :
    plan.retries = (plan.config.globalCheck && plan.config.globalRetry && report.failure?.isSome) := by
  unfold retries
  rw [hdraft]
  change (_ && _ && match plan.globalCheck d.last.values with
    | .ok (_, report) => report.failure?.isSome
    | .error _ => false) = _
  rw [hcheck]

theorem retries_unchecked (h : ¬plan.config.globalCheck = true) : plan.retries = false := by
  unfold retries
  rw [Bool.eq_false_iff.mpr h, Bool.false_and, Bool.false_and]

/-- What is published after a failed check is a draft with one more pass. -/
theorem recover_published (hd : plan.Drafted d) {failure : CurveError α} (h : plan.recover d failure = .ok o) :
    plan.config.globalRetry = true ∧ ∃ d' curve report, plan.Drafted d' ∧ d'.passes = d.passes + 1 ∧
      plan.finishedCurve d'.last.values = .ok curve ∧ plan.publish d' curve report = .ok o := by
  unfold recover at h
  split at h
  · rename_i hretry
    split at h
    · rename_i d' curve report hok
      split at h
      · obtain ⟨d'', hextend, hok⟩ := ok_of_bind hok
        obtain ⟨⟨c, r⟩, hcheck, hok⟩ := ok_of_bind hok
        cases hok
        exact ⟨hretry, _, _, _, hd.extend hextend, (extend_ok hextend).2, (globalCheck_ok hcheck).1, h⟩
      · cases h
    · cases h
  · cases h

/-- What a run publishes is a draft over which the finished curve was built: that of the passes before the
    check, or the one that was made after it failed. -/
theorem run_published (h : plan.run = .ok o) :
    ∃ d curve report, plan.Drafted d ∧
      d.passes = 1 + (if plan.scheme.isGlobal then 1 else 0) + (if plan.retries then 1 else 0) ∧
      plan.finishedCurve d.last.values = .ok curve ∧ plan.publish d curve report = .ok o := by
  obtain ⟨d, hdraft, h⟩ := ok_of_bind h
  obtain ⟨hd, hpasses⟩ := draft_ok hdraft
  split at h
  · rename_i hchecks
    obtain ⟨⟨curve, report⟩, hcheck, h⟩ := ok_of_bind h
    have hretries := retries_eq hdraft hcheck
    dsimp only at h
    split at h
    · rename_i hnone
      rw [hnone, Option.isSome_none, Bool.and_false] at hretries
      refine ⟨d, curve, some report, hd, ?_, (globalCheck_ok hcheck).1, h⟩
      rw [hpasses, hretries]
      rfl
    · rename_i failure hfailure
      obtain ⟨hretry, d', curve', report', hd', hmore, hcurve, hpublish⟩ := recover_published hd h
      rw [hchecks, hretry, hfailure] at hretries
      refine ⟨d', curve', report', hd', ?_, hcurve, hpublish⟩
      rw [hmore, hpasses, hretries]
      rfl
  · rename_i hchecks
    obtain ⟨curve, hcurve, h⟩ := ok_of_bind h
    refine ⟨d, curve, none, hd, ?_, hcurve, h⟩
    rw [hpasses, retries_unchecked hchecks]
    rfl

end BootstrapPlan

end

end TermStructure
