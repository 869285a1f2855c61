import SlotGraph.CommandLine.Disk
import SlotGraph.CommandLine.Options
import SlotGraph.Example
import SlotGraph.Session
import SlotGraph.Settings

/-!
# A run of the command line

A run registers a schema, loads a graph or imports a config document if asked to,
writes what is asked for, and ends by listing the issues.  It stops at the first
step that fails, with what was printed until then.
-/

namespace SlotGraph

structure Console where
  output : String
  errors : String

structure Outcome where
  exitCode : Nat
  output : String
  errors : String

/-- A step of a run: it prints, works on files, and may end the run with an exit code. -/
abbrev Run (m : Type → Type) :=
  ExceptT Nat (StateT Console m)

namespace Run

variable {m : Type → Type} [Monad m]

/--
The part of a text in front of its first NUL character.  Arguments, paths and
the texts put into printed lines end there.
-/
def shown (text : String) : String :=
  String.ofList (text.toList.takeWhile fun c => c != '\x00')

def print (text : String) : Run m Unit :=
  modify fun console => { console with output := console.output ++ text }

def say (line : String) : Run m Unit :=
  print (line ++ "\n")

def warn (line : String) : Run m Unit :=
  modify fun console => { console with errors := console.errors ++ line ++ "\n" }

def stop {α : Type} (exitCode : Nat) : Run m α :=
  throw exitCode

def lift {α : Type} (action : m α) : Run m α :=
  ExceptT.lift (StateT.lift action)

def failure : Nat := 1

def misuse : Nat := 2

def showIssues (issues : List Issue) : Run m Unit :=
  issues.forM fun issue => warn ("[" ++ issue.kind.name ++ "] " ++ shown issue.message)

def slotNote (slot : InputSpec) : String :=
  let intake :=
    match slot.intake with
    | .many _ => ", multi"
    | .single (some kind) => ", native " ++ kind.name
    | .single none => ""
  "  <" ++ slot.type ++ intake ++ (if slot.optional then ", optional" else "") ++ ">"

def fieldLine (field : Field) (slot : Option InputSpec) : String :=
  let default := if field.defaultText = "" then "" else " = " ++ field.defaultText
  shown ("    " ++ field.name ++ ": " ++ field.rawType ++ default ++
    (slot.map slotNote).getD "")

def classLines (registry : Registry) (schema : Schema) (cls : SchemaClass) : List String :=
  let template := registry.find? schema.name cls.name
  let mark := if template.any NodeTemplate.isRoot then " [root]" else ""
  ("  " ++ cls.name ++ mark) ::
    cls.fields.zipIdx.map fun (field, position) =>
      fieldLine field (template.bind fun t => t.inputs[position]?)

def schemaLines (registry : Registry) (schema : Schema) : List String :=
  let root := if schema.rootType = "" then "-" else schema.rootType
  ("schema " ++ shown schema.name ++ " (index: " ++ shown schema.indexType ++
      ", root: " ++ shown root ++ ")") ::
    schema.classes.flatMap (classLines registry schema)

def describe (session : Session) (name : String) : Run m Unit :=
  match session.findSchema? name with
  | some schema => (schemaLines session.registry schema).forM say
  | none => pure ()

def readDocument (files : FileAccess m) (path : String) : Run m (Option Json) := do
  return (← lift (files.read path)).bind Json.parse?

/-- Write a JSON document into a file, or end the run. -/
def writeDocument (files : FileAccess m) (path : String) (document : Json) : Run m Unit := do
  let written ← lift (files.write path (document.renderIndented ++ "\n"))
  if !written then stop failure

def loadSettings (files : FileAccess m) (options : Options) : Run m Settings := do
  if options.settingsFile = "" then
    return Settings.standard
  match (← lift (files.read options.settingsFile)).bind Settings.parse? with
  | some settings => return settings
  | none =>
      warn ("cannot load settings " ++ options.settingsFile)
      stop failure

/--
Open the log file: make its directory, and the file itself, empty.  A run whose
log file cannot be opened goes on.
-/
def openLog (files : FileAccess m) (settings : Settings) : Run m Unit := do
  let path := settings.logFile
  if path = "" then
    return
  let reached ←
    match directoryOf? path with
    | some directory => lift (files.makeDirectories (shown directory))
    | none => pure true
  let opened ← if reached then lift (files.write (shown path) "") else pure false
  if !opened then
    warn ("logging: cannot open " ++ shown path ++ ", using stdout")

def register (session : Session) (name source indexType rootType : String) :
    Run m Session := do
  let (done, session) := session.register name source indexType rootType
  if !done then
    showIssues session.issues
    stop failure
  return session

def registerSchema (files : FileAccess m) (options : Options) (settings : Settings)
    (session : Session) : Run m Session := do
  if options.demo then
    register session Example.schemaName Example.source Example.indexType Example.rootType
  else if options.schemaFile = "" then
    warn "no schema given (use --schema <file> or --demo)"
    print Options.usage
    stop misuse
  else
    match ← lift (files.read options.schemaFile) with
    | some source =>
        register session options.schemaName source
          (options.indexType.getD settings.defaultIndexType) options.rootType
    | none => stop failure

def loadGraph (files : FileAccess m) (options : Options) (session : Session) :
    Run m Session := do
  if options.graphFile = "" then
    return session
  let refused : Run m Session := do
    warn ("cannot load graph " ++ options.graphFile)
    stop failure
  match ← readDocument files options.graphFile with
  | some document =>
      let (done, session) := session.loadGraph document
      if done then return session else refused
  | none => refused

def importDocument (files : FileAccess m) (options : Options) : Run m (Option Json) := do
  if options.importFile = "" then
    return if options.demo then some Example.config else none
  match ← readDocument files options.importFile with
  | some document => return some document
  | none => stop failure

/-- Import a config document; a graph that was loaded is extended, not replaced. -/
def importConfig (options : Options) (schemaName : String) (session : Session)
    (document : Json) : Run m Session := do
  let (summary, session) := session.importConfig document schemaName (options.graphFile = "")
  match summary with
  | some summary =>
      say ("imported: " ++ toString summary.groupNodes ++ " group nodes, " ++
        toString summary.embeddedNodes ++ " embedded nodes, " ++
        toString summary.links ++ " links")
      return session
  | none =>
      showIssues session.issues
      stop failure

/-- Where the built config goes; the example prints it unless told otherwise. -/
def buildTarget (options : Options) : String :=
  if options.demo ∧ options.buildFile = "" then "-" else options.buildFile

def buildConfig (files : FileAccess m) (options : Options) (schemaName : String)
    (session : Session) : Run m Session := do
  let target := buildTarget options
  if target = "" then
    return session
  let (config, session) := session.buildConfig schemaName
  match config with
  | some config =>
      if target = "-" then say config.renderIndented
      else writeDocument files target config
      return session
  | none => stop failure

def perform (files : FileAccess m) (options : Options) : Run m Unit := do
  let settings ← loadSettings files options
  openLog files settings
  let schemaName := if options.demo then Example.schemaName else options.schemaName
  let mut session := Session.start settings.importLayout
  session ← registerSchema files options settings session
  if options.describe then
    describe session schemaName
  session ← loadGraph files options session
  if let some document ← importDocument files options then
    session ← importConfig options schemaName session document
  session ← buildConfig files options schemaName session
  if options.saveGraphFile ≠ "" then
    writeDocument files options.saveGraphFile session.graph.document
  showIssues session.issues

def ofArguments (files : FileAccess m) (args : List String) : Run m Unit :=
  match Options.read (args.map shown) with
  | .error fault => do
      warn fault.message
      print Options.usage
      stop misuse
  | .ok options => if options.help then print Options.usage else perform files options

def outcome (files : FileAccess m) (args : List String) : m Outcome := do
  let (result, console) ← ((ofArguments files args).run).run ⟨"", ""⟩
  let exitCode :=
    match result with
    | .ok _ => 0
    | .error code => code
  return ⟨exitCode, console.output, console.errors⟩

end Run

end SlotGraph
