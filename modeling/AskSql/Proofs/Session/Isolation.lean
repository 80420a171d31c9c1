import AskSql.Proofs.Session.Uncached

/-! Tenants do not see each other.  A step that names one tenant depends on the configuration, the
loaded schema and the dictionary of that tenant alone, and changes those of no other.  So the steps
of other tenants may be left out of a session without a change to what one tenant is answered. -/

namespace AskSql

variable {tenant other : String} {first : Step} {session session' : PlainSession}

/-- Whether a step names no tenant but the given one. -/
def Step.concerns (tenant : String) (step : Step) : Bool :=
  step.tenant?.all (· == tenant)

/-- The steps that name a tenant, with their answers. -/
def answersTo (tenant : String) (answers : List (Step × Answer)) : List (Step × Answer) :=
  answers.filter (·.1.tenant? == some tenant)

namespace PlainSession

/-- Two sessions are alike as far as one tenant is concerned. -/
structure Alike (tenant : String) (session session' : PlainSession) : Prop where
  configs : session.configs.get? tenant = session'.configs.get? tenant
  loaded : session.loaded.get? tenant = session'.loaded.get? tenant
  dictionary : session.dictionary.terms tenant = session'.dictionary.terms tenant

theorem Alike.refl (tenant : String) (session : PlainSession) : Alike tenant session session :=
  ⟨rfl, rfl, rfl⟩

theorem Alike.trans {session'' : PlainSession} (h : Alike tenant session session')
    (h' : Alike tenant session' session'') : Alike tenant session session'' :=
  ⟨h.configs.trans h'.configs, h.loaded.trans h'.loaded, h.dictionary.trans h'.dictionary⟩

/-! ### The steps of other tenants -/

/-- What is done to another tenant leaves a tenant as it is. -/
theorem alike_load (hne : tenant ≠ other) : Alike tenant (session.load other).2 session := by
  unfold load
  dsimp only
  split
  · exact .refl _ _
  · exact ⟨rfl, Keyed.get?_insert_of_ne _ _ hne, rfl⟩

theorem alike_current (hne : tenant ≠ other) : Alike tenant (session.current other).2 session := by
  unfold current
  split
  · exact .refl _ _
  · exact alike_load hne

theorem alike_add (hne : tenant ≠ other) (phrase table column : String)
    (aggregation : Option Aggregation) :
    Alike tenant (session.add other phrase table column aggregation).2 session := by
  have hcurrent : Alike tenant (session.current other).2 session := alike_current hne
  unfold add
  cases hresult : session.current other with
  | mk result after =>
    rw [hresult] at hcurrent
    cases result with
    | error fault => exact hcurrent
    | ok schema =>
      dsimp only
      split
      · exact hcurrent
      · split
        · exact hcurrent
        · exact ⟨hcurrent.configs, hcurrent.loaded,
            (Vocabulary.Dictionary.terms_add_of_ne _ _ hne).trans hcurrent.dictionary⟩

/-- A step that names another tenant leaves a tenant as it is. -/
theorem alike_step (hstep : first.tenant? = some other) (hne : tenant ≠ other) :
    Alike tenant (session.step first).2 session := by
  cases first with
  | compile request =>
    obtain rfl := Option.some.inj hstep
    exact alike_current hne
  | add name phrase table column aggregation =>
    obtain rfl := Option.some.inj hstep
    exact alike_add hne phrase table column aggregation
  | put config =>
    obtain rfl := Option.some.inj hstep
    exact ⟨Keyed.get?_insert_of_ne _ _ hne, rfl, rfl⟩
  | reload name =>
    obtain rfl := Option.some.inj hstep
    exact alike_load hne
  | get name =>
    obtain rfl := Option.some.inj hstep
    exact alike_current hne
  | invalidate name =>
    obtain rfl := Option.some.inj hstep
    exact ⟨rfl, Keyed.get?_erase_of_ne _ hne, rfl⟩
  | invalidateAll => contradiction
  | cached => contradiction

/-! ### The steps of a tenant -/

theorem Alike.load (h : Alike tenant session session') :
    (session.load tenant).1 = (session'.load tenant).1 ∧
      Alike tenant (session.load tenant).2 (session'.load tenant).2 := by
  unfold PlainSession.load
  rw [h.configs]
  dsimp only
  split
  · exact ⟨rfl, h⟩
  · exact ⟨rfl, h.configs, by simp, h.dictionary⟩

theorem Alike.current (h : Alike tenant session session') :
    (session.current tenant).1 = (session'.current tenant).1 ∧
      Alike tenant (session.current tenant).2 (session'.current tenant).2 := by
  unfold PlainSession.current
  rw [h.loaded]
  split
  · exact ⟨rfl, h⟩
  · exact h.load

theorem Alike.compile {request : Request} (h : Alike request.tenant session session') :
    (session.compile request).1 = (session'.compile request).1 ∧
      Alike request.tenant (session.compile request).2 (session'.compile request).2 := by
  obtain ⟨hschema, hafter⟩ := h.current
  refine ⟨?_, hafter⟩
  simp only [PlainSession.compile, hschema, hafter.dictionary]

theorem Alike.add (h : Alike tenant session session') (phrase table column : String)
    (aggregation : Option Aggregation) :
    (session.add tenant phrase table column aggregation).1 =
        (session'.add tenant phrase table column aggregation).1 ∧
      Alike tenant (session.add tenant phrase table column aggregation).2
        (session'.add tenant phrase table column aggregation).2 := by
  obtain ⟨hschema, hafter⟩ := h.current
  unfold PlainSession.add
  cases hresult : session.current tenant with
  | mk result after =>
    cases hresult' : session'.current tenant with
    | mk result' after' =>
      rw [hresult, hresult'] at hschema hafter
      obtain rfl : result = result' := hschema
      cases result with
      | error fault => exact ⟨rfl, hafter⟩
      | ok schema =>
        have hterms : after.dictionary.terms tenant = after'.dictionary.terms tenant :=
          hafter.dictionary
        dsimp only
        rw [hterms]
        split
        · exact ⟨rfl, hafter⟩
        · split
          · exact ⟨rfl, hafter⟩
          · refine ⟨rfl, hafter.configs, hafter.loaded, ?_⟩
            rw [Vocabulary.Dictionary.terms_add_self, Vocabulary.Dictionary.terms_add_self, hterms]

/-- A step that names a tenant is answered alike in alike sessions, and leaves them alike. -/
theorem Alike.step (h : Alike tenant session session') (hstep : first.tenant? = some tenant) :
    (session.step first).1 = (session'.step first).1 ∧
      Alike tenant (session.step first).2 (session'.step first).2 := by
  cases first with
  | compile request =>
    obtain rfl := Option.some.inj hstep
    obtain ⟨hanswer, hafter⟩ := h.compile
    exact ⟨congrArg Answer.compiled hanswer, hafter⟩
  | add name phrase table column aggregation =>
    obtain rfl := Option.some.inj hstep
    obtain ⟨hanswer, hafter⟩ := h.add phrase table column aggregation
    exact ⟨congrArg Answer.added hanswer, hafter⟩
  | put config =>
    obtain rfl := Option.some.inj hstep
    exact ⟨rfl, by simp [PlainSession.step], h.loaded, h.dictionary⟩
  | reload name =>
    obtain rfl := Option.some.inj hstep
    obtain ⟨hanswer, hafter⟩ := h.load
    refine ⟨?_, hafter⟩
    simp only [PlainSession.step, hanswer]
  | get name =>
    obtain rfl := Option.some.inj hstep
    obtain ⟨hanswer, hafter⟩ := h.current
    exact ⟨congrArg Answer.schema hanswer, hafter⟩
  | invalidate name =>
    obtain rfl := Option.some.inj hstep
    refine ⟨?_, h.configs, by simp [PlainSession.step], h.dictionary⟩
    simp only [PlainSession.step, Keyed.contains, h.loaded]
  | invalidateAll => contradiction
  | cached => contradiction

/-- A step that names no tenant leaves alike sessions alike. -/
theorem Alike.step_none (h : Alike tenant session session') (hstep : first.tenant? = none) :
    Alike tenant (session.step first).2 (session'.step first).2 := by
  cases first with
  | invalidateAll => exact ⟨h.configs, rfl, h.dictionary⟩
  | cached => exact h
  | _ => contradiction

theorem answersTo_run_cons (tenant : String) (session : PlainSession) (first : Step)
    (steps : List Step) :
    answersTo tenant (session.run (first :: steps)) =
      if first.tenant? = some tenant then
        (first, (session.step first).1) :: answersTo tenant ((session.step first).2.run steps)
      else answersTo tenant ((session.step first).2.run steps) := by
  rw [PlainSession.run, runSteps, answersTo, List.filter_cons]
  simp only [beq_iff_eq]
  rfl

/-- In alike sessions a tenant is answered alike, with the steps of the others or without. -/
theorem Alike.run (h : Alike tenant session session') (steps : List Step) :
    answersTo tenant (session.run steps) =
      answersTo tenant (session'.run (steps.filter (·.concerns tenant))) := by
  induction steps generalizing session session' with
  | nil => rfl
  | cons first steps ih =>
    rw [answersTo_run_cons]
    cases hname : first.tenant? with
    | none =>
      have hconcerns : first.concerns tenant = true := by simp [Step.concerns, hname]
      rw [List.filter_cons_of_pos hconcerns, answersTo_run_cons, hname, if_neg (by simp),
        if_neg (by simp)]
      exact ih (h.step_none hname)
    | some name =>
      by_cases heq : name = tenant
      · have hconcerns : first.concerns tenant = true := by simp [Step.concerns, hname, heq]
        obtain ⟨hanswer, hafter⟩ := h.step (heq ▸ hname)
        rw [List.filter_cons_of_pos hconcerns, answersTo_run_cons, hname, heq, if_pos rfl,
          if_pos rfl, hanswer, ih hafter]
      · have hconcerns : ¬first.concerns tenant = true := by simp [Step.concerns, hname, heq]
        rw [List.filter_cons_of_neg hconcerns, if_neg (by simpa using heq)]
        exact ih ((alike_step hname (Ne.symm heq)).trans h)

end PlainSession

namespace Session

/-- What a tenant is answered in a session does not depend on the steps that name other tenants. -/
theorem answersTo_run (configs : List TenantConfig) (tenant : String) (steps : List Step) :
    answersTo tenant ((start configs).run steps) =
      answersTo tenant ((start configs).run (steps.filter (·.concerns tenant))) := by
  rw [(Coherent.start configs).run, (Coherent.start configs).run]
  exact (PlainSession.Alike.refl tenant _).run steps

/-- Nor does it depend on the configurations of other tenants that are there at the start. -/
theorem answersTo_run_own (configs : List TenantConfig) (tenant : String) (steps : List Step) :
    answersTo tenant ((start configs).run steps) =
      answersTo tenant ((start (configs.filter (·.tenant == tenant))).run
        (steps.filter (·.concerns tenant))) := by
  have halike : PlainSession.Alike tenant (start configs).plain
      (start (configs.filter (·.tenant == tenant))).plain := by
    refine ⟨?_, rfl, rfl⟩
    simp only [plain, start, Keyed.get?_ofList, List.filter_map, Function.comp_def,
      List.filter_filter, Bool.and_self]
  rw [(Coherent.start configs).run, (Coherent.start _).run]
  exact halike.run steps

end Session

end AskSql
