import Grapher.Boundary
import Grapher.Formula.Mask
import Grapher.Tree.Datum

/-!
# Sessions

A session holds settings and formulas by name. A step compiles a formula under the settings in
force, changes a setting, or asks for something; only the first two change the session. A formula
keeps what it was compiled to, while the interval count and the step are those in force when it is
evaluated.
-/

set_option autoImplicit false

namespace Grapher

/-- What a formula is compiled from. -/
inductive Source where
  | text (text : String)
  | tree (datum : Datum)

/-- A formula of a session: one compiled before, or a text compiled for the occasion. -/
inductive Subject where
  | named (name : String)
  | written (text : String)

/-- A change of one setting. -/
inductive Change where
  | derivativeStep (step : Number)
  | integralIntervals (count : Int)
  | nativeEnabled (enabled : Bool)
  | defaultVariable (name : String)

/-- A step of a session. -/
inductive Step where
  | compile (name : String) (source : Source)
  | change (change : Change)
  | parse (text : String)
  | transpile (text : String)
  | boundaries (text : String)
  | evaluate (name : String) (scope : Scope)
  | condition (subject : Subject) (scope : Scope)
  | scalar (subject : Subject) (scope : Scope)
  | derivative (name : String) (place : Value) (step : Option Value)
  | integrate (name : String) (lower upper : Value)
  | mask (groups : List (List String)) (xs ys : List Value) (scope : Scope)
  | worldScope (player : String) (view : Viewpoint)
  | composed (world player : String) (view : Viewpoint)
  | curve (world player : String) (view : Viewpoint) (places : List Value)

/-- Why a step fails. -/
inductive StepError where
  | parse (reason : Markup.ParseError)
  | tree (reason : DatumError)
  | fault (reason : Fault)
  | unknownFormula (name : String)

/-- What a step answers. -/
inductive Answer where
  | compiled (formula : Formula)
  | settings (settings : Settings)
  | tree (tree : Node)
  | text (text : String)
  | boundaries (boundaries : List Boundary)
  | results (byProgram byNative : Number)
  | truth (holds : Bool)
  | value (value : Value)
  | mask (rows : List (List Bool))
  | scope (scope : Scope)
  | curve (samples : List Float)

/-- Settings and formulas by name. -/
structure Session where
  settings : Settings
  formulas : List (String × Formula)

namespace Settings

/-- Settings after a change. -/
def changed (settings : Settings) : Change → Settings
  | .derivativeStep step => { settings with derivativeStep := step }
  | .integralIntervals count => { settings with integralIntervals := count }
  | .nativeEnabled enabled => { settings with nativeEnabled := enabled }
  | .defaultVariable name => { settings with defaultVariable := name }

end Settings

namespace Session

/-- A session without formulas. -/
def start (settings : Settings) : Session := ⟨settings, []⟩

/-- The formula of a name. -/
def find (session : Session) (name : String) : Except StepError Formula :=
  match session.formulas.lookup name with
  | some formula => .ok formula
  | none => .error (.unknownFormula name)

/-- The session with a formula under a name, in place of any that had the name before. -/
def define (session : Session) (name : String) (formula : Formula) : Session :=
  { session with formulas := (name, formula) :: session.formulas }

@[simp] theorem find_define_self (session : Session) (name : String) (formula : Formula) :
    (session.define name formula).find name = .ok formula := by
  simp [find, define]

theorem find_define_of_ne (session : Session) {name other : String} (formula : Formula)
    (different : other ≠ name) :
    (session.define name formula).find other = session.find other := by
  have unequal : (other == name) = false := by simpa using different
  simp [find, define, List.lookup_cons, unequal]

/-- The formula of a subject. -/
def subject (session : Session) : Subject → Except StepError Formula
  | .named name => session.find name
  | .written text => .ok (.ofText session.settings text)

/-- The formula of a source. -/
def compiled (settings : Settings) : Source → Except StepError Formula
  | .text text => .ok (.ofText settings text)
  | .tree datum =>
    match Node.ofDatum datum with
    | .ok tree => .ok (.ofTree settings tree "")
    | .error reason => .error (.tree reason)

/-- A parsed text as a step. -/
def parsed (text : String) : Except StepError Node :=
  match Markup.parse text with
  | .ok tree => .ok tree
  | .error reason => .error (.parse reason)

/-- The boundaries of a text; a text without a tree has none. -/
def boundariesOf (settings : Settings) (text : String) : List Boundary :=
  match Markup.parse text with
  | .ok tree => Boundary.ofNode settings.defaultVariable tree
  | .error _ => []

/-- An evaluation as a step. -/
def evaluated {α : Type} : Except Fault α → Except StepError α
  | .ok value => .ok value
  | .error reason => .error (.fault reason)

/-- A conversion as a step. -/
def converted {α : Type} (result : Except DoubleError α) : Except StepError α :=
  evaluated (Fault.ofConversion result)

/-- What a step answers. -/
def ask (session : Session) : Step → Except StepError Answer
  | .compile _ source => do
    let formula ← compiled session.settings source
    .ok (.compiled formula)
  | .change change => .ok (.settings (session.settings.changed change))
  | .parse text => do
    let tree ← parsed text
    .ok (.tree tree)
  | .transpile text => do
    let tree ← parsed text
    .ok (.text (Program.textOf session.settings.defaultVariable tree))
  | .boundaries text => .ok (.boundaries (boundariesOf session.settings text))
  | .evaluate name scope => do
    let formula ← session.find name
    .ok (.results (formula.evaluate session.settings scope)
      (formula.evaluateNative session.settings scope))
  | .condition subject scope => do
    let formula ← session.subject subject
    .ok (.truth (formula.condition session.settings scope))
  | .scalar subject scope => do
    let formula ← session.subject subject
    let result ← converted (formula.scalar session.settings scope)
    .ok (.value (.float result))
  | .derivative name place step => do
    let formula ← session.find name
    let result ← evaluated (formula.derivativeAt session.settings place step)
    .ok (.value result)
  | .integrate name lower upper => do
    let formula ← session.find name
    let result ← evaluated (formula.integralOver session.settings lower upper)
    .ok (.value result)
  | .mask groups xs ys scope => do
    let groups ← groups.mapM fun group => group.mapM session.find
    let rows ← converted (Formula.mask session.settings groups xs ys scope)
    .ok (.mask rows)
  | .worldScope player view => do
    let player ← session.find player
    .ok (.scope (player.worldScope session.settings view))
  | .composed world player view => do
    let world ← session.find world
    let player ← session.find player
    .ok (.value (.number (Formula.composed session.settings world player view)))
  | .curve world player view places => do
    let world ← session.find world
    let player ← session.find player
    let samples ← converted (Formula.curve session.settings world player view places)
    .ok (.curve samples)

/-- The session after a step that was answered. -/
def after (session : Session) (step : Step) (answer : Answer) : Session :=
  match step, answer with
  | .compile name _, .compiled formula => session.define name formula
  | .change _, .settings settings => { session with settings := settings }
  | _, _ => session

/-- One step: the answer or the reason why there is none, and the session after it. A step that
fails leaves the session as it was. -/
def step (session : Session) (step : Step) : Except StepError Answer × Session :=
  match session.ask step with
  | .ok answer => (.ok answer, session.after step answer)
  | .error reason => (.error reason, session)

/-- The answers of a list of steps in order. -/
def run (session : Session) : List Step → List (Except StepError Answer)
  | [] => []
  | first :: rest =>
    let (answer, next) := session.step first
    answer :: next.run rest

end Session

end Grapher
