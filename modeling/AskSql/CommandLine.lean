import AskSql.Clause.Parse
import AskSql.Report
import AskSql.Storage.Load

/-! The command line: a question, a tenant, and clauses beside the question.  Reading the arguments
and answering them are functions of the arguments and the files; what is left to the program is to
look at the files and to print. -/

namespace AskSql.CommandLine

open Storage

/-- The arguments of a run. -/
structure Options where
  question : Option String := none
  tenant : Option String := none
  configDir : Option String := none
  dialect : Option String := none
  filters : List String := []
  sorts : List String := []
  groupBy : List String := []
  strict : Bool := false
  json : Bool := false
deriving Repr, DecidableEq

/-- What is wrong with the arguments. -/
inductive UsageFault
  | unexpected (argument : String)
  | noValue (option : String)
  | repeated (option : String)
  | noQuestion
  | noTenant
deriving Repr, DecidableEq

/-- The wording of a fault in the arguments. -/
def UsageFault.message : UsageFault → String
  | unexpected argument => s!"error: unexpected argument '{argument}' found"
  | noValue option => s!"error: a value is required for '{option}' but none was supplied"
  | repeated option => s!"error: the argument '{option}' cannot be used multiple times"
  | noQuestion => "error: the question was not provided"
  | noTenant => "error: the argument '--tenant' was not provided"

/-- The options that take a value. -/
inductive ValueOption
  | tenant
  | configDir
  | dialect
  | filter
  | sort
  | groupBy
deriving Repr, DecidableEq

/-- The long names of the options that take a value. -/
def ValueOption.names : List (String × ValueOption) :=
  [("--tenant", tenant), ("--config-dir", configDir), ("--dialect", dialect), ("--filter", filter),
   ("--sort", sort), ("--group-by", groupBy)]

/-- The long name of the option with a short name. -/
def longName? (c : Char) : Option String :=
  [('t', "--tenant"), ('c', "--config-dir")].lookup c

/-- `value` in place of nothing. -/
def once (name value : String) : Option String → Except UsageFault (Option String)
  | none => .ok (some value)
  | some _ => .error (.repeated name)

/-- The options with the value of one more. -/
def Options.set (options : Options) (name : String) (option : ValueOption) (value : String) :
    Except UsageFault Options :=
  match option with
  | .tenant => do return { options with tenant := ← once name value options.tenant }
  | .configDir => do return { options with configDir := ← once name value options.configDir }
  | .dialect => do return { options with dialect := ← once name value options.dialect }
  | .filter => .ok { options with filters := options.filters ++ [value] }
  | .sort => .ok { options with sorts := options.sorts ++ [value] }
  | .groupBy => .ok { options with groupBy := options.groupBy ++ [value] }

/-- The options with a positional argument, which is the question. -/
def Options.setQuestion (options : Options) (argument : String) : Except UsageFault Options :=
  match options.question with
  | none => .ok { options with question := some argument }
  | some _ => .error (.unexpected argument)

/-- An argument that begins with a dash taken apart: the long name of its option, and its value if
that is part of the argument. -/
def splitArgument (argument : String) : Option (String × Option String) :=
  match argument.toList with
  | '-' :: '-' :: cs =>
    let name := "--" ++ String.ofList (cs.takeWhile (· ≠ '='))
    match cs.dropWhile (· ≠ '=') with
    | [] => some (name, none)
    | _ :: value => some (name, some (String.ofList value))
  | '-' :: c :: cs =>
    (longName? c).map fun name =>
      match cs with
      | [] => (name, none)
      | '=' :: value => (name, some (String.ofList value))
      | value => (name, some (String.ofList value))
  | _ => none

/-- Whether an argument is read as an option. -/
def isOption (argument : String) : Bool :=
  argument.toList.head? == some '-' && argument != "-"

/-- Reads the arguments one by one. -/
def readArguments (options : Options) : List String → Except UsageFault Options
  | [] => .ok options
  | "--" :: rest => rest.foldlM Options.setQuestion options
  | argument :: rest =>
    if !isOption argument then do readArguments (← options.setQuestion argument) rest
    else if argument = "--strict" then
      if options.strict then .error (.repeated argument)
      else readArguments { options with strict := true } rest
    else if argument = "--json" then
      if options.json then .error (.repeated argument)
      else readArguments { options with json := true } rest
    else
      match splitArgument argument with
      | none => .error (.unexpected argument)
      | some (name, given) =>
        match ValueOption.names.lookup name, given, rest with
        | none, _, _ => .error (.unexpected argument)
        | some option, some value, rest => do readArguments (← options.set name option value) rest
        | some _, none, [] => .error (.noValue name)
        | some option, none, value :: rest =>
          if isOption value then .error (.noValue name)
          else do readArguments (← options.set name option value) rest

/-- A run that can be made: the question and the tenant are there. -/
structure Run where
  question : String
  tenant : String
  options : Options

/-- The run that the arguments ask for. -/
def parse (arguments : List String) : Except UsageFault Run := do
  let options ← readArguments {} arguments
  match options.question, options.tenant with
  | some question, some tenant => return ⟨question, tenant, options⟩
  | none, _ => throw .noQuestion
  | _, none => throw .noTenant

/-- What a run prints and the code it ends with. -/
structure Outcome where
  exitCode : Nat
  output : String
  errors : String
deriving Repr, DecidableEq

/-- The outcome of a run whose arguments cannot be read. -/
def usageOutcome (fault : UsageFault) : Outcome :=
  ⟨2, "", fault.message ++ "\n"⟩

/-- The outcome of a run that failed while it did what `context` says.  Further lines of the message
are indented like the first. -/
def failed (context : String) (fault : Fault) : Outcome :=
  let message := fault.message.toList.flatMap fun c =>
    if c = '\n' then "\n    ".toList else [c]
  ⟨1, "", "Error: " ++ context ++ "\n\nCaused by:\n    " ++ String.ofList message ++ "\n"⟩

/-- The outcome of a compiled question. -/
def printed (options : Options) (compiled : Compiled) : Outcome :=
  if options.json then ⟨0, compiled.json.pretty 0 ++ "\n", ""⟩
  else
    let warnings := String.join (compiled.parsed.warnings.map fun w => "warning: " ++ w ++ "\n")
    match compiled.sql with
    | some sql => ⟨0, sql ++ "\n", warnings⟩
    | none => ⟨2, "", warnings⟩

/-- The filters of the options, or the outcome of the first that cannot be read. -/
def readFilters (options : Options) : Except Outcome (List Clause) :=
  options.filters.mapM fun text =>
    (Clause.parseFilter text).mapError (failed ("Invalid --filter '" ++ text ++ "'"))

/-- The dialect of the options. -/
def readDialect (options : Options) : Except Outcome (Option Dialect) :=
  match options.dialect with
  | none => .ok none
  | some text => ((Dialect.ofText? text).map some).mapError (failed "Invalid --dialect")

/-- Answers a run from the files under `root`. -/
def answer (files : Files) (root : String) (run : Run) : Outcome :=
  let result : Except Outcome Outcome := do
    let options := run.options
    let filters ← readFilters options
    let clauses :=
      filters ++ options.sorts.map Clause.parseSort ++ options.groupBy.map Clause.parseGroupBy
    let dialect ← readDialect options
    let request : Request := {
      tenant := run.tenant
      question := run.question
      clauses
      policy := if options.strict then .fail else .drop
      dialect }
    let compiled ← (Compiler.empty.compile (loadTenant files root) request).1.mapError
      (failed ("Failed to compile question for tenant " ++ run.tenant))
    return printed options compiled
  match result with
  | .ok outcome | .error outcome => outcome

end AskSql.CommandLine
