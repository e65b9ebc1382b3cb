import LoxCalc.Run

/-!
Contract: runs of texts in a row over one record of reports.

Owns:
- `Outcome`, what a run can come to, with its reports;
- `Diagnostics.filed` and `Diagnostics.after`, the reports of one run and the record
  after a list of steps;
- `RunLaw` and `SessionLaw`, kept by every run and by every list of steps.

Does **not** own: which lexical, syntax and runtime errors a text has.
-/

set_option autoImplicit false

namespace LoxCalc

/-! ## One run -/

def lexicalReports (source : String) : List Report :=
  (scan source).errors.map Report.ofLexical

/-- The value and the reports that a run of a text can come to. -/
inductive Outcome (blocked : Bool) (source : String) : Option Value → List Report → Prop where
  | unparsed {fault : Parse.Error} (parse : Run.parseScan (scan source) = .error fault) :
      Outcome blocked source none (lexicalReports source ++ [Report.ofParse fault])
  | heldBack {e : Expr} (parse : Run.parseScan (scan source) = .ok e)
      (held : blocked = true ∨ lexicalReports source ≠ []) :
      Outcome blocked source none (lexicalReports source)
  | failed {e : Expr} {fault : EvalError} (parse : Run.parseScan (scan source) = .ok e)
      (free : blocked = false) (clean : lexicalReports source = [])
      (eval : e.eval = .error fault) :
      Outcome blocked source none [Report.ofEval fault]
  | value {e : Expr} {value : Value} (parse : Run.parseScan (scan source) = .ok e)
      (free : blocked = false) (clean : lexicalReports source = []) (eval : e.eval = .ok value) :
      Outcome blocked source (some value) []

theorem outcome_ofSource (blocked : Bool) (source : String) :
    Outcome blocked source (Run.ofSource blocked source).value?
      (Run.ofSource blocked source).reports := by
  have sameLexical : (Run.ofSource blocked source).lexicalReports = lexicalReports source := rfl
  have isHeld : (blocked || !(scan source).errors.isEmpty) = true ↔
      blocked = true ∨ lexicalReports source ≠ [] := by
    simp [lexicalReports]
  simp only [Run.reports, sameLexical]
  cases parse : Run.parseScan (scan source) with
  | error fault =>
      have outcome : Outcome blocked source none _ := .unparsed parse
      simpa [Run.ofSource, parse, Run.value?, Run.parseReports, Run.evalReports] using outcome
  | ok e =>
      by_cases held : blocked = true ∨ lexicalReports source ≠ []
      · have outcome : Outcome blocked source none _ := .heldBack parse held
        simpa [Run.ofSource, parse, isHeld.mpr held, Run.value?, Run.parseReports,
          Run.evalReports] using outcome
      · have goes : (blocked || !(scan source).errors.isEmpty) = false := by
          rw [← Bool.not_eq_true, isHeld]
          exact held
        have free : blocked = false := by simpa using (not_or.mp held).1
        have clean : lexicalReports source = [] := by simpa using (not_or.mp held).2
        cases eval : e.eval with
        | error fault =>
            have outcome : Outcome blocked source none _ := .failed parse free clean eval
            simpa [Run.ofSource, parse, goes, eval, clean, Run.value?, Run.parseReports,
              Run.evalReports] using outcome
        | ok value =>
            have outcome : Outcome blocked source _ _ := .value parse free clean eval
            simpa [Run.ofSource, parse, goes, eval, clean, Run.value?, Run.parseReports,
              Run.evalReports] using outcome

namespace Diagnostics

/-- The reports that a run files: those behind the earlier ones. -/
def filed (d : Diagnostics) (source : String) : List Report :=
  (d.run source).2.reports.drop d.reports.length

theorem filed_eq (d : Diagnostics) (source : String) :
    d.filed source = (Run.ofSource d.hasStatic source).reports := by
  simp [filed, run, append]

theorem run_reports (d : Diagnostics) (source : String) :
    (d.run source).2.reports = d.reports ++ d.filed source := by
  rw [filed_eq]
  rfl

theorem outcome_run (d : Diagnostics) (source : String) :
    Outcome d.hasStatic source (d.run source).1 (d.filed source) := by
  rw [filed_eq]
  exact outcome_ofSource d.hasStatic source

end Diagnostics

/-- What a run does to the record and when it gives a value. -/
structure RunLaw (d : Diagnostics) (source : String) : Prop where
  /-- Earlier reports stay. -/
  appends : (d.run source).2.reports = d.reports ++ d.filed source
  /-- The lexical errors of the text come first, then at most one further report. -/
  phases : ∃ last, d.filed source = lexicalReports source ++ last ∧
    (last = [] ∨
      (∃ line location message, last = [.syntactic line location message]) ∨
      ((∃ operator message, last = [.runtime operator message]) ∧
        lexicalReports source = [] ∧ d.hasStatic = false))
  /-- The lexical and syntax errors are those of a run over any other record. -/
  static_eq : ∀ other : Diagnostics,
    (d.filed source).filter Report.isStatic = (other.filed source).filter Report.isStatic
  /-- A value is what is left when there is nothing to report, now or before. -/
  value_iff : (d.run source).1.isSome = true ↔ d.filed source = [] ∧ d.hasStatic = false
  /-- Earlier runtime errors make no difference. -/
  eq_empty : d.hasStatic = false →
    (d.run source).1 = (Diagnostics.empty.run source).1 ∧
      d.filed source = Diagnostics.empty.filed source

def staticReports (source : String) : List Report :=
  match Run.parseScan (scan source) with
  | .error fault => lexicalReports source ++ [Report.ofParse fault]
  | .ok _ => lexicalReports source

theorem lexicalReports_static (source : String) :
    (lexicalReports source).filter Report.isStatic = lexicalReports source := by
  rw [List.filter_eq_self]
  intro r member
  obtain ⟨e, _, rfl⟩ := List.mem_map.mp member
  rfl

theorem Outcome.static_eq {blocked : Bool} {source : String} {value : Option Value}
    {reports : List Report} (outcome : Outcome blocked source value reports) :
    reports.filter Report.isStatic = staticReports source := by
  cases outcome with
  | unparsed parse =>
      rw [List.filter_append, lexicalReports_static, staticReports, parse]
      rfl
  | heldBack parse held =>
      rw [lexicalReports_static, staticReports, parse]
  | failed parse free clean eval =>
      rw [staticReports, parse]
      exact clean.symm
  | value parse free clean eval =>
      rw [staticReports, parse]
      exact clean.symm

theorem Outcome.phases {blocked : Bool} {source : String} {value : Option Value}
    {reports : List Report} (outcome : Outcome blocked source value reports) :
    ∃ last, reports = lexicalReports source ++ last ∧
      (last = [] ∨
        (∃ line location message, last = [.syntactic line location message]) ∨
        ((∃ operator message, last = [.runtime operator message]) ∧
          lexicalReports source = [] ∧ blocked = false)) := by
  cases outcome with
  | unparsed parse => exact ⟨_, rfl, .inr (.inl ⟨_, _, _, rfl⟩)⟩
  | heldBack parse held => exact ⟨[], (List.append_nil _).symm, .inl rfl⟩
  | @failed e fault parse free clean eval =>
      refine ⟨[Report.ofEval fault], ?_, .inr (.inr ⟨⟨_, _, rfl⟩, clean, free⟩)⟩
      rw [clean]
      rfl
  | value parse free clean eval => exact ⟨[], by rw [clean]; rfl, .inl rfl⟩

theorem Outcome.value_iff {blocked : Bool} {source : String} {value : Option Value}
    {reports : List Report} (outcome : Outcome blocked source value reports) :
    value.isSome = true ↔ reports = [] ∧ blocked = false := by
  cases outcome with
  | unparsed parse => simp
  | heldBack parse held =>
      rcases held with isBlocked | unclean
      · simp [isBlocked]
      · simp [unclean]
  | failed parse free clean eval => simp
  | value parse free clean eval => simp [free]

theorem runLaw (d : Diagnostics) (source : String) : RunLaw d source where
  appends := d.run_reports source
  phases := (d.outcome_run source).phases
  static_eq := by
    intro other
    rw [(d.outcome_run source).static_eq, (other.outcome_run source).static_eq]
  value_iff := (d.outcome_run source).value_iff
  eq_empty := by
    intro free
    rw [d.filed_eq, Diagnostics.empty.filed_eq]
    simp only [Diagnostics.run, free]
    exact ⟨rfl, rfl⟩

/-! ## Steps in a row -/

namespace Diagnostics

/-- The record after a list of steps. -/
def after (d : Diagnostics) (steps : List Step) : Diagnostics :=
  steps.foldl (fun now s => (now.perform s).2) d

/-- What each of a list of runs files. -/
def filings (d : Diagnostics) : List String → List (List Report)
  | [] => []
  | source :: rest => d.filed source :: (d.run source).2.filings rest

theorem after_runs (sources : List String) :
    ∀ d : Diagnostics,
      (d.after (sources.map .run)).reports = d.reports ++ (d.filings sources).flatten := by
  induction sources with
  | nil =>
      intro d
      exact (List.append_nil d.reports).symm
  | cons source rest inductionHypothesis =>
      intro d
      show ((d.run source).2.after (rest.map .run)).reports = _
      rw [inductionHypothesis, run_reports, List.append_assoc]
      rfl

theorem hasStatic_run (d : Diagnostics) (source : String) :
    (d.run source).2.hasStatic = (d.hasStatic || (d.filed source).any Report.isStatic) := by
  rw [hasStatic, run_reports, List.any_append]
  rfl

theorem hasStatic_after_runs (sources : List String) :
    ∀ d : Diagnostics, d.hasStatic = true → (d.after (sources.map .run)).hasStatic = true := by
  intro d static
  have kept := after_runs sources d
  rw [hasStatic, kept, List.any_append, Bool.or_eq_true]
  exact .inl static

/-- Behind the last step that clears the record there are only runs. -/
theorem after_cases (steps : List Step) :
    ∀ d : Diagnostics,
      (∃ sources : List String, steps = sources.map .run ∧
        (d.after steps).reports = d.reports ++ (d.filings sources).flatten) ∨
      ∃ (before : List Step) (sources : List String),
        steps = before ++ .clear :: sources.map .run ∧
          (d.after steps).reports = (empty.filings sources).flatten := by
  induction steps with
  | nil =>
      intro d
      exact .inl ⟨[], rfl, after_runs [] d⟩
  | cons s rest inductionHypothesis =>
      intro d
      rcases inductionHypothesis (d.perform s).2 with ⟨sources, rfl, _⟩ | ⟨before, sources, rfl, kept⟩
      · cases s with
        | run source => exact .inl ⟨source :: sources, rfl, after_runs (source :: sources) d⟩
        | clear => exact .inr ⟨[], sources, rfl, after_runs sources empty⟩
      · exact .inr ⟨s :: before, sources, rfl, kept⟩

end Diagnostics

/-- What a list of steps leaves on record, and what it means for the runs to come. -/
structure SessionLaw (d : Diagnostics) (steps : List Step) : Prop where
  /-- The record holds what was filed since it was last cleared, in order. -/
  sinceClear :
    (∃ sources : List String, steps = sources.map .run ∧
      (d.after steps).reports = d.reports ++ (d.filings sources).flatten) ∨
    ∃ (before : List Step) (sources : List String),
      steps = before ++ .clear :: sources.map .run ∧
        (d.after steps).reports = (Diagnostics.empty.filings sources).flatten
  hasStatic_iff : (d.after steps).hasStatic = true ↔
    ∃ r ∈ (d.after steps).reports,
      (∃ line message, r = .lexical line message) ∨
        ∃ line location message, r = .syntactic line location message
  hasRuntime_iff : (d.after steps).hasRuntime = true ↔
    ∃ r ∈ (d.after steps).reports, ∃ operator message, r = .runtime operator message
  /-- A lexical or syntax error in a run holds back every later run until a clear. -/
  holdsBack : ∀ (source : String) (later : List String) (last : String),
    (∃ r ∈ (d.after steps).filed source, r.isStatic = true) →
      let now := (d.after steps).after (.run source :: later.map .run)
      (now.run last).1 = none ∧ ∀ r ∈ now.filed last, r.isRuntime = false

theorem Report.isStatic_iff (r : Report) :
    r.isStatic = true ↔ (∃ line message, r = .lexical line message) ∨
      ∃ line location message, r = .syntactic line location message := by
  cases r <;> simp [Report.isStatic]

theorem Report.isRuntime_iff (r : Report) :
    r.isRuntime = true ↔ ∃ operator message, r = .runtime operator message := by
  cases r <;> simp [Report.isRuntime]

/-- Over a record with a lexical or syntax error, a run gives no value and files no
runtime error. -/
theorem Outcome.heldBack_of_blocked {source : String} {value : Option Value}
    {reports : List Report} (outcome : Outcome true source value reports) :
    value = none ∧ ∀ r ∈ reports, r.isRuntime = false := by
  have noRuntime : ∀ r ∈ lexicalReports source, r.isRuntime = false := by
    intro r member
    obtain ⟨e, _, rfl⟩ := List.mem_map.mp member
    rfl
  cases outcome with
  | unparsed parse =>
      refine ⟨rfl, List.forall_mem_append.mpr ⟨noRuntime, ?_⟩⟩
      exact List.forall_mem_singleton.mpr rfl
  | heldBack parse held => exact ⟨rfl, noRuntime⟩
  | failed parse free clean eval => contradiction
  | value parse free clean eval => contradiction

theorem sessionLaw (d : Diagnostics) (steps : List Step) : SessionLaw d steps where
  sinceClear := Diagnostics.after_cases steps d
  hasStatic_iff := by
    simp only [Diagnostics.hasStatic, List.any_eq_true, Report.isStatic_iff]
  hasRuntime_iff := by
    simp only [Diagnostics.hasRuntime, List.any_eq_true, Report.isRuntime_iff]
  holdsBack := by
    intro source later last reported now
    have static : ((d.after steps).run source).2.hasStatic = true := by
      rw [Diagnostics.hasStatic_run, List.any_eq_true.mpr reported, Bool.or_true]
    have kept : now.hasStatic = true := Diagnostics.hasStatic_after_runs later _ static
    have outcome := now.outcome_run last
    rw [kept] at outcome
    exact outcome.heldBack_of_blocked

/-- **Sessions over one record of reports.** -/
theorem session_laws :
    (∀ d source, RunLaw d source) ∧ ∀ d steps, SessionLaw d steps :=
  ⟨runLaw, sessionLaw⟩

end LoxCalc
