import Grapher.Session

/-!
# What a formula takes from the settings

A formula is built with the default variable and the native switch that are in force when it is
compiled, and with nothing else of the session. When it is evaluated, only the step and the interval
count in force at that moment count. So whatever happens in between, evaluating it is the same as
evaluating a formula of the same source in a new session that has the former two settings from the
one moment and the latter two from the other.

What a single step does to a formula is said once (`find_step_of_keeps`); runs follow by induction.
-/

set_option autoImplicit false

namespace Grapher

open List Formula

variable {session : Session} {source : Source} {step : Step} {name : String}

/-! ## The two halves of the settings -/

namespace Settings

/-- Settings with the step and the interval count of other ones. -/
def withCalculus (settings calculus : Settings) : Settings :=
  { settings with
    derivativeStep := calculus.derivativeStep
    integralIntervals := calculus.integralIntervals }

/-- Settings under which formulas are built alike. -/
structure BuildAlike (a b : Settings) : Prop where
  defaultVariable : a.defaultVariable = b.defaultVariable
  nativeEnabled : a.nativeEnabled = b.nativeEnabled

/-- Settings under which formulas are evaluated alike. -/
structure EvaluateAlike (a b : Settings) : Prop where
  intervals : a.simpsonIntervals = b.simpsonIntervals
  step : a.step = b.step

theorem buildAlike_withCalculus (settings calculus : Settings) :
    BuildAlike settings (settings.withCalculus calculus) := ⟨rfl, rfl⟩

theorem evaluateAlike_withCalculus (settings calculus : Settings) :
    EvaluateAlike calculus (settings.withCalculus calculus) := ⟨rfl, rfl⟩

end Settings

/-! ## Building -/

section Building

variable {a b : Settings} (alike : a.BuildAlike b)
include alike

theorem Build.ofTree_congr (tree : Node) : Build.ofTree a tree = Build.ofTree b tree := by
  unfold Build.ofTree
  rw [alike.defaultVariable, alike.nativeEnabled]

theorem Formula.ofText_congr (text : String) : ofText a text = ofText b text := by
  simp only [ofText, Build.ofText, Build.ofTree_congr alike]

theorem Formula.ofTree_congr (tree : Node) (raw : String) :
    ofTree a tree raw = ofTree b tree raw := by
  simp only [ofTree, Build.ofTree_congr alike]

theorem Session.compiled_congr (source : Source) :
    Session.compiled a source = Session.compiled b source := by
  cases source with
  | text text => simp only [Session.compiled, ofText_congr alike]
  | tree datum => simp only [Session.compiled, ofTree_congr alike]

end Building

/-! ## Evaluating -/

namespace Formula

variable {a b : Settings} (alike : a.EvaluateAlike b)
include alike

theorem evaluate_congr (scope : Scope) (formula : Formula) :
    formula.evaluate a scope = formula.evaluate b scope := by
  simp only [evaluate, alike.intervals]

theorem evaluateNative_congr (scope : Scope) (formula : Formula) :
    formula.evaluateNative a scope = formula.evaluateNative b scope := by
  simp only [evaluateNative, alike.intervals]

theorem condition_congr (scope : Scope) (formula : Formula) :
    formula.condition a scope = formula.condition b scope := by
  simp only [condition, evaluateNative_congr alike]

theorem scalar_congr (scope : Scope) (formula : Formula) :
    formula.scalar a scope = formula.scalar b scope := by
  simp only [scalar, evaluate_congr alike]

theorem derivativeAt_congr (formula : Formula) (place : Value) (step : Option Value) :
    formula.derivativeAt a place step = formula.derivativeAt b place step := by
  simp only [derivativeAt, valueAt, evaluate_congr alike, alike.step]

theorem integralOver_congr (formula : Formula) (lower upper : Value) :
    formula.integralOver a lower upper = formula.integralOver b lower upper := by
  simp only [integralOver, valueAt, evaluate_congr alike, alike.intervals]

theorem mask_congr (groups : List (List Formula)) (xs ys : List Value) (scope : Scope) :
    mask a groups xs ys scope = mask b groups xs ys scope := by
  simp only [mask, cell, answer, alike.intervals]

theorem worldScope_congr (player : Formula) (view : Viewpoint) :
    player.worldScope a view = player.worldScope b view := by
  simp only [worldScope, asFunction, alike.intervals, alike.step]

theorem composed_congr (world player : Formula) (view : Viewpoint) :
    composed a world player view = composed b world player view := by
  simp only [composed, evaluateNative_congr alike, worldScope_congr alike]

theorem curve_congr (world player : Formula) (view : Viewpoint) (places : List Value) :
    curve a world player view places = curve b world player view places := by
  simp only [curve, samples, composed_congr alike]

end Formula

/-- The names of the formulas that a step evaluates, if that is what it does. -/
def Step.evaluated? : Step → Option (List String)
  | .evaluate name _ => some [name]
  | .condition (.named name) _ => some [name]
  | .scalar (.named name) _ => some [name]
  | .derivative name _ _ => some [name]
  | .integrate name _ _ => some [name]
  | .mask groups _ _ _ => some groups.flatten
  | .worldScope player _ => some [player]
  | .composed world player _ => some [world, player]
  | .curve world player _ _ => some [world, player]
  | _ => none

namespace Session

theorem mapM_find_congr {a b : Session} {names : List String}
    (same : ∀ name ∈ names, a.find name = b.find name) : names.mapM a.find = names.mapM b.find := by
  induction names with
  | nil => rfl
  | cons name names ih =>
    obtain ⟨here, later⟩ := forall_mem_cons.mp same
    rw [mapM_cons, mapM_cons, here, ih later]

theorem mapM_groups_congr {a b : Session} {groups : List (List String)}
    (same : ∀ name ∈ groups.flatten, a.find name = b.find name) :
    groups.mapM (·.mapM a.find) = groups.mapM (·.mapM b.find) := by
  induction groups with
  | nil => rfl
  | cons group groups ih =>
    have here := mapM_find_congr fun name member => same name (mem_append_left _ member)
    have later := ih fun name member => same name (mem_append_right _ member)
    rw [mapM_cons, mapM_cons, here, later]

/-- The answer to a step that evaluates formulas depends on these formulas and on the settings of
the calculus alone. -/
theorem ask_congr {a b : Session} (alike : a.settings.EvaluateAlike b.settings)
    {names : List String} (evaluates : step.evaluated? = some names)
    (same : ∀ name ∈ names, a.find name = b.find name) : a.ask step = b.ask step := by
  cases step with
  | compile | change | parse | transpile | boundaries => cases evaluates
  | evaluate name scope =>
    cases evaluates
    simp only [ask, same name (.head _), evaluate_congr alike, evaluateNative_congr alike]
  | condition subject scope =>
    cases subject with
    | written text => cases evaluates
    | named name =>
      cases evaluates
      simp only [ask, Session.subject, same name (.head _), condition_congr alike]
  | scalar subject scope =>
    cases subject with
    | written text => cases evaluates
    | named name =>
      cases evaluates
      simp only [ask, Session.subject, same name (.head _), scalar_congr alike]
  | derivative name place step =>
    cases evaluates
    simp only [ask, same name (.head _), derivativeAt_congr alike]
  | integrate name lower upper =>
    cases evaluates
    simp only [ask, same name (.head _), integralOver_congr alike]
  | mask groups xs ys scope =>
    cases evaluates
    simp only [ask, mapM_groups_congr same, mask_congr alike]
  | worldScope player view =>
    cases evaluates
    simp only [ask, same player (.head _), worldScope_congr alike]
  | composed world player view =>
    cases evaluates
    simp only [ask, same world (.head _), same player (.tail _ (.head _)), composed_congr alike]
  | curve world player view places =>
    cases evaluates
    simp only [ask, same world (.head _), same player (.tail _ (.head _)), curve_congr alike]

end Session

/-! ## What a step does to a formula -/

/-- Whether no formula can be made of a source, whatever the settings are. -/
def Source.isRefused : Source → Bool
  | .text _ => false
  | .tree datum =>
    match Node.ofDatum datum with
    | .ok _ => false
    | .error _ => true

/-- Whether a step puts a new formula in the place of the one with a name. -/
def Step.replaces (name : String) : Step → Bool
  | .compile other source => other == name && !source.isRefused
  | _ => false

namespace Session

theorem compiled_of_refused (refused : source.isRefused = true) (settings : Settings) :
    ∃ reason, compiled settings source = .error reason := by
  cases source with
  | text text => cases refused
  | tree datum =>
    cases found : Node.ofDatum datum with
    | ok tree => simp [Source.isRefused, found] at refused
    | error reason => exact ⟨.tree reason, by simp only [compiled, found]⟩

theorem compiled_of_accepted (accepted : source.isRefused = false) (settings : Settings) :
    ∃ formula, compiled settings source = .ok formula := by
  cases source with
  | text text => exact ⟨_, rfl⟩
  | tree datum =>
    cases found : Node.ofDatum datum with
    | ok tree => exact ⟨.ofTree settings tree "", by simp only [compiled, found]⟩
    | error reason => simp [Source.isRefused, found] at accepted

/-- The session after a step. -/
def next (session : Session) (step : Step) : Session := (session.step step).2

theorem next_of_ok {answer : Answer} (answered : session.ask step = .ok answer) :
    session.next step = session.after step answer := by
  rw [next, Session.step, answered]

/-- A step that fails leaves the session as it was. -/
theorem next_of_error {reason : StepError} (failed : session.ask step = .error reason) :
    session.next step = session := by
  rw [next, Session.step, failed]

theorem next_compile {formula : Formula} (found : compiled session.settings source = .ok formula) :
    session.next (.compile name source) = session.define name formula := by
  have answered : session.ask (.compile name source) = .ok (.compiled formula) := by
    rw [ask, found]
    rfl
  rw [next_of_ok answered]
  rfl

theorem next_refused (refused : source.isRefused = true) :
    session.next (.compile name source) = session := by
  obtain ⟨reason, found⟩ := compiled_of_refused refused session.settings
  have failed : session.ask (.compile name source) = .error reason := by
    rw [ask, found]
    rfl
  exact next_of_error failed

/-- A step that puts no new formula in its place leaves a formula alone. -/
theorem find_next_of_keeps (kept : step.replaces name = false) :
    (session.next step).find name = session.find name := by
  cases step with
  | compile other source =>
    cases refused : source.isRefused with
    | true => rw [next_refused refused]
    | false =>
      obtain ⟨formula, found⟩ := compiled_of_accepted refused session.settings
      have different : name ≠ other := by
        rintro rfl
        simp [Step.replaces, refused] at kept
      rw [next_compile found, find_define_of_ne session formula different]
  | change change => rfl
  | _ =>
    rw [next, Session.step]
    split <;> rfl

/-- An accepted source is found as what it compiles to. -/
theorem find_next_compile (accepted : source.isRefused = false) (name : String) :
    (session.next (.compile name source)).find name = compiled session.settings source := by
  obtain ⟨formula, found⟩ := compiled_of_accepted accepted session.settings
  rw [next_compile found, find_define_self, found]

/-! ## Runs -/

/-- The session that a list of steps leads to. -/
def reached (session : Session) (steps : List Step) : Session := steps.foldl next session

theorem reached_append (session : Session) (first second : List Step) :
    session.reached (first ++ second) = (session.reached first).reached second :=
  foldl_append

theorem reached_cons (session : Session) (step : Step) (steps : List Step) :
    session.reached (step :: steps) = (session.next step).reached steps := rfl

theorem fst_step (session : Session) (step : Step) : (session.step step).1 = session.ask step := by
  unfold Session.step
  split
  · next answered => exact answered.symm
  · next failed => exact failed.symm

theorem run_cons (session : Session) (step : Step) (steps : List Step) :
    session.run (step :: steps) = session.ask step :: (session.next step).run steps := by
  rw [run, ← fst_step]
  rfl

/-- The answer to a step of a run is the answer of the session that the steps before it lead to. -/
theorem getElem?_run (session : Session) (before later : List Step) (step : Step) :
    (session.run (before ++ step :: later))[before.length]?
      = some ((session.reached before).ask step) := by
  induction before generalizing session with
  | nil =>
    rw [nil_append, run_cons]
    rfl
  | cons first before ih =>
    rw [cons_append, run_cons, length_cons, getElem?_cons_succ, ih, reached_cons]

/-- A run that puts no new formula in its place leaves a formula alone. -/
theorem find_reached_of_keeps {steps : List Step}
    (kept : ∀ step ∈ steps, step.replaces name = false) :
    (session.reached steps).find name = session.find name := by
  induction steps generalizing session with
  | nil => rfl
  | cons step steps ih =>
    obtain ⟨here, later⟩ := forall_mem_cons.mp kept
    rw [reached_cons, ih later, find_next_of_keeps here]

/-- Compiling changes no setting. -/
theorem settings_next_compile (session : Session) (name : String) (source : Source) :
    (session.next (.compile name source)).settings = session.settings := by
  cases refused : source.isRefused with
  | true => rw [next_refused refused]
  | false =>
    obtain ⟨formula, found⟩ := compiled_of_accepted refused session.settings
    rw [next_compile found]
    rfl

/-- In every run, a formula that was compiled at one step is at each later step the formula that a
new session makes of the same source, with the default variable and the native switch of the former
step, until another formula takes its name. A step that evaluates it is answered as in a new session
that has these two settings, and the step and the interval count that are in force when it is
evaluated. Where several formulas are evaluated together, the answer depends on each of them and on
the latter two settings, and on nothing else of the session. -/
theorem run_evaluates_as_new (session : Session) (before between : List Step) (name : String)
    (source : Source) (accepted : source.isRefused = false)
    (kept : ∀ step ∈ between, step.replaces name = false) :
    let early := session.reached before
    let late := session.reached (before ++ .compile name source :: between)
    let fresh := start (early.settings.withCalculus late.settings)
    (late.find name = compiled early.settings source ∧
      late.find name = (fresh.reached [.compile name source]).find name) ∧
    ∀ (step : Step) (names : List String), step.evaluated? = some names →
      ((∀ other ∈ names, other = name) → ∀ later : List Step,
        (session.run ((before ++ .compile name source :: between) ++ step :: later))[
            (before ++ .compile name source :: between).length]?
          = (fresh.run [.compile name source, step])[1]?) ∧
      ∀ session' : Session, late.settings.EvaluateAlike session'.settings →
        (∀ other ∈ names, late.find other = session'.find other) →
        late.ask step = session'.ask step := by
  intro early late fresh
  have found : late.find name = compiled early.settings source := by
    have split : late = (early.next (.compile name source)).reached between := by
      rw [← reached_cons]
      exact reached_append session before _
    rw [split, find_reached_of_keeps kept, find_next_compile accepted]
  have same : late.find name = (fresh.reached [.compile name source]).find name := by
    have new : (fresh.reached [.compile name source]).find name = compiled fresh.settings source :=
      find_next_compile accepted name
    rw [found, new]
    exact compiled_congr (Settings.buildAlike_withCalculus early.settings late.settings) source
  have settings : late.settings.EvaluateAlike (fresh.reached [.compile name source]).settings := by
    have kept : (fresh.reached [.compile name source]).settings = fresh.settings :=
      settings_next_compile fresh name source
    rw [kept]
    exact Settings.evaluateAlike_withCalculus early.settings late.settings
  refine ⟨⟨found, same⟩, ?_⟩
  intro step names evaluates
  refine ⟨?_, ?_⟩
  · intro only later
    have new := getElem?_run fresh [.compile name source] [] step
    rw [getElem?_run session _ later step]
    refine Eq.trans (congrArg some (ask_congr settings evaluates ?_)) new.symm
    intro other member
    rw [only other member]
    exact same
  · intro session' alike finds
    exact ask_congr alike evaluates finds

/-- A bare derivative keeps the variable that was the default when it was compiled, and the integrals
of its evaluation have the interval count that was set later. A compilation under its name that fails
in between changes nothing. -/
theorem run_bare_derivative :
    ((start .standard).run [.change (.defaultVariable "t"), .compile "g" (.text "f'"),
        .change (.defaultVariable "u"), .compile "g" (.tree (.list [])),
        .change (.integralIntervals 40),
        .evaluate "g" [("t", .float 2), ("derivative_f", .function (.primitive .sqrt))]])[5]?
      = ((start { Settings.standard with defaultVariable := "t", integralIntervals := 40 }).run
        [.compile "g" (.text "f'"),
          .evaluate "g" [("t", .float 2), ("derivative_f", .function (.primitive .sqrt))]])[1]? :=
  ((run_evaluates_as_new (start .standard) [.change (.defaultVariable "t")]
    [.change (.defaultVariable "u"), .compile "g" (.tree (.list [])),
      .change (.integralIntervals 40)]
    "g" (.text "f'") rfl
    (by simp [Step.replaces, Source.isRefused, Node.ofDatum])).2
    (.evaluate "g" [("t", .float 2), ("derivative_f", .function (.primitive .sqrt))]) ["g"] rfl).1
    (fun _ member => mem_singleton.mp member) []

end Session

end Grapher
