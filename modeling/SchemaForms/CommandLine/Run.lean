import SchemaForms.CommandLine.Arguments
import SchemaForms.Form.Normalize
import SchemaForms.Json.Printer
import SchemaForms.Loader.Composite
import SchemaForms.Settings.Basic

/-!
# Running commands

A command is a function of its arguments and of the world that it runs in: the disk, the web, the
environment, the console and the stack. It prints either its result or one line that says what is
wrong. Faults of the settings, and errors that do not lie in a schema, are not reported in that way
but end the program. Messages and the cells of tables are mark-up, and mark-up that the console
cannot print ends the program, too.
-/

namespace SchemaForms.CommandLine

/-- Mark-up that cannot be printed: the kind of the fault, and its wording. -/
structure ConsoleFault where
  kind : String
  text : String
deriving DecidableEq, Repr

/-- What lays out mark-up for the terminal. -/
structure Console where
  /-- Mark-up that shows a text as it is. -/
  escape : String → String
  print : String → Except ConsoleFault String
  /-- A table with a head and rows, whose cells are mark-up. -/
  table : List String → List (List String) → Except ConsoleFault String

/-- What a command can see. -/
structure World where
  disk : Disk
  /-- The current directory. -/
  current : String
  environment : Environment := []
  client : HttpClient
  console : Console
  stack : Stack := .unlimited

/-- What ends a program without a report. -/
inductive Failure where
  | setting (fault : SettingFault)
  | error (error : Error)
  | console (fault : ConsoleFault)
deriving DecidableEq, Repr

def Failure.message : Failure → String
  | .setting fault => fault.text
  | .error e => e.message
  | .console fault => fault.text

/-- What a command does: the texts that it prints, its exit code, and the failure that ends it, if
any. -/
structure Outcome where
  exitCode : Nat
  output : String := ""
  errors : String := ""
  failure : Option Failure := none
  /-- The paths of the disk that were read, in order. -/
  reads : List String := []
deriving Repr

namespace Outcome

def success (output : String) : Outcome :=
  { exitCode := 0, output := output }

def usage (fault : UsageFault) : Outcome :=
  { exitCode := 2, errors := "Error: " ++ fault.text ++ "\n" }

def failed (failure : Failure) : Outcome :=
  { exitCode := 1, failure := some failure }

/-- A message is printed as it is, behind a word in red. -/
def report (console : Console) (message : String) : Outcome :=
  match console.print ("[red]Error:[/red] " ++ console.escape message) with
  | .ok text => { exitCode := 1, errors := text }
  | .error fault => failed (.console fault)

/-- An error is printed if it lies in a schema, and ends the program otherwise. -/
def ofError (console : Console) (error : Error) : Outcome :=
  match error with
  | .schema _ _ => report console error.message
  | _ => failed (.error error)

def ofResult {α : Type} (console : Console) (print : α → String) : Except Error α → Outcome
  | .ok value => success (print value)
  | .error error => ofError console error

end Outcome

/-- The document that the arguments name: a file, or a resource in the given directory. -/
def Arguments.source (arguments : Arguments) : Source :=
  match arguments.root with
  | some _ => Source.ofName arguments.path
  | none => Source.ofFile arguments.path

/-- The options of the settings, except where switches say otherwise. -/
def Arguments.override (arguments : Arguments) (options : ResolveOptions) : ResolveOptions :=
  { options with
    allowHttp := arguments.allowHttp.getD options.allowHttp
    allowTraversal := arguments.allowTraversal.getD options.allowTraversal }

def World.loader (world : World) (options : LoaderOptions) : Except Error CompositeLoader :=
  CompositeLoader.create world.disk world.current options.root
    (if options.allowHttp then some world.client else none)

def overlayMessage (fault : DiskFault) (path : String) : String :=
  "[Errno " ++ toString fault.number ++ "] " ++ fault.text ++ ": " ++ Text.quoted (Path.tidy path)

def readOverlay (world : World) (path : String) : Except Outcome Overlay :=
  match world.disk (Path.append world.current (Path.tidy path)) with
  | .error .nullInPath => .error (.failed (.error (.source .nullInPath)))
  | .error fault => .error (.report world.console (overlayMessage fault path))
  | .ok raw => (Overlay.ofOctets raw).mapError (.ofError world.console)

def printJson (value : Json) : String :=
  value.write .page ++ "\n"

def printForms (console : Console) (catalog : Catalog) : Except ConsoleFault String := do
  let rows := catalog.refs.filterMap fun ref =>
    (catalog.find? ref.id).map fun form => [ref.id, form.method, form.endpoint]
  let table ← console.table ["id", "method", "endpoint"] rows
  return table ++ "(" ++ toString rows.length ++ " forms)\n"

def listForms (console : Console) (catalog : Catalog) : Outcome :=
  match printForms console catalog with
  | .ok text => .success text
  | .error fault => .failed (.console fault)

/-- What a command makes of its document, and the requests to the loader for other documents. -/
def act (arguments : Arguments) (world : World) (options : ResolveOptions)
    (overlay : Option Overlay) (loader : Loader) (current : String) (document : Document) :
    Outcome × List Source :=
  match arguments.command with
  | .resolve =>
    match Catalog.readDocument document with
    | .error error => (.ofError world.console error, [])
    | .ok payload =>
      let session : Session := {
        loader := some loader
        options := options.effective
        current := current }
      let (result, state) := session.runRoot document (.obj payload)
      (.ofResult world.console (fun members => printJson (.obj members)) result, state.requests)
  | .normalize =>
    let wanted : FormOptions := ⟨arguments.slug, arguments.suffix, arguments.formId⟩
    let (result, requests) :=
      Catalog.run world.stack (some loader) options current wanted overlay document
    (.ofResult world.console (fun catalog => printJson catalog.toJson) result, requests)
  | .forms =>
    let wanted : FormOptions := { slug := arguments.slug }
    let (result, requests) :=
      Catalog.run world.stack (some loader) options current wanted none document
    match result with
    | .ok catalog => (listForms world.console catalog, requests)
    | .error error => (.ofError world.console error, requests)

def actOn (arguments : Arguments) (world : World) (loader : CompositeLoader)
    (options : ResolveOptions) (overlay : Option Overlay) : Outcome :=
  let reads (sources : List Source) : List String := sources.filterMap loader.path?
  match loader.fetch arguments.source with
  | .error error =>
    { Outcome.ofError world.console error with reads := reads [arguments.source] }
  | .ok document =>
    let (outcome, requests) :=
      act arguments world options overlay (.ofFetch loader.fetch) loader.current document
    { outcome with reads := reads (arguments.source :: requests) }

def process (arguments : Arguments) (world : World) (options : ResolveOptions)
    (overlay : Option Overlay) : Outcome :=
  match Settings.loaderOptions world.environment arguments.root (some options.allowHttp) with
  | .error fault => .failed (.setting fault)
  | .ok loaderOptions =>
    match world.loader loaderOptions with
    | .error error => .failed (.error error)
    | .ok loader => actOn arguments world loader options overlay

def run (arguments : Arguments) (world : World) : Outcome :=
  match Settings.resolveOptions world.environment with
  | .error fault => .failed (.setting fault)
  | .ok options =>
    let options := arguments.override options
    match arguments.overlay with
    | none => process arguments world options none
    | some path =>
      let reads := [Path.append world.current (Path.tidy path)]
      match readOverlay world path with
      | .error outcome => { outcome with reads := reads }
      | .ok overlay =>
        let outcome := process arguments world options (some overlay)
        { outcome with reads := reads ++ outcome.reads }

def runArguments (arguments : List String) (world : World) : Outcome :=
  match Arguments.read arguments with
  | .error fault => .usage fault
  | .ok arguments => run arguments world

end SchemaForms.CommandLine
