import DotLang.CommandLine.Files
import DotLang.Graph.Json
import DotLang.Outline
import DotLang.Parser
import DotLang.Stats

/-!
# The command line

What the program does is decided here, without touching a file: `Invocation.ofArgs` reads the
arguments, and `Request.answer` says what is written and with which exit code, given the file that
the request names.

Arguments are read from left to right. A request for the version or for help is granted as soon
as it is met; a mistake before it comes first. A single minus and the empty argument are inputs.
-/

namespace DotLang.CommandLine

/-- The switches that may be given, each at most once. -/
inductive Switch where
  | ast
  | json
  | stats
  | debug
  | help
  | version
deriving DecidableEq

namespace Switch

def all : List Switch := [ast, json, stats, debug, help, version]

def letter : Switch → Char
  | ast => 'a'
  | json => 'j'
  | stats => 's'
  | debug => 'd'
  | help => 'h'
  | version => 'V'

def word : Switch → String
  | ast => "ast"
  | json => "json"
  | stats => "stats"
  | debug => "debug"
  | help => "help"
  | version => "version"

def ofLetter? (c : Char) : Option Switch := all.find? fun s => s.letter = c

def ofWord? (w : String) : Option Switch := all.find? fun s => s.word = w

end Switch

/-- What is to be done with which file. -/
structure Request where
  switches : List Switch
  input : String

/-- What the arguments ask for. -/
inductive Invocation where
  | misuse
  | help
  | version
  | request (request : Request)

namespace Invocation

/-- Adds one switch, unless it ends the reading of the arguments. -/
def addSwitch (given : List Switch) : Option Switch → Except Invocation (List Switch)
  | none => .error .misuse
  | some .help => .error .help
  | some .version => .error .version
  | some s => if s ∈ given then .error .misuse else .ok (s :: given)

/-- Adds the switches that a row of letters stands for. -/
def addLetters (given : List Switch) (letters : List Char) : Except Invocation (List Switch) :=
  letters.foldlM (fun given c => addSwitch given (Switch.ofLetter? c)) given

/-- The request, once all arguments are read. -/
def finish (given : List Switch) : List String → Invocation
  | [input] => .request ⟨given, input⟩
  | _ => .misuse

/-- Reads the arguments, with the switches and the inputs that are already given. There may be
only one input. -/
def read (given : List Switch) (inputs : List String) : List String → Invocation
  | [] => finish given inputs
  | arg :: rest =>
    match arg.toList with
    | ['-', '-'] => finish given (inputs ++ rest)
    | '-' :: '-' :: word =>
      match addSwitch given (Switch.ofWord? (String.ofList word)) with
      | .ok given => read given inputs rest
      | .error invocation => invocation
    | '-' :: c :: letters =>
      match addLetters given (c :: letters) with
      | .ok given => read given inputs rest
      | .error invocation => invocation
    | _ => if inputs.isEmpty then read given [arg] rest else .misuse

/-- What the arguments ask for. -/
def ofArgs (args : List String) : Invocation := read [] [] args

end Invocation

/-- What the program writes, and its exit code. -/
structure Answer where
  exitCode : Nat
  stdout : String
  stderr : String

/-! ## Log lines -/

inductive LogLevel where
  | error
  | info
  | debug

/-- The level as a log line shows it, always in five columns. -/
def LogLevel.label : LogLevel → String
  | error => "ERROR"
  | info => "INFO "
  | debug => "DEBUG"

/-- A message over several lines is indented from its second line on. -/
def logLine (level : LogLevel) (target message : String) : String :=
  let indentedText := message.toList.flatMap fun c => if c = '\n' then "\n    ".toList else [c]
  "[" ++ level.label ++ " " ++ target ++ "] " ++ String.ofList indentedText ++ "\n"

/-- The log line of a request that failed. -/
def failureLine (message : String) : String := logLine .error "dotparse" ("Error: " ++ message)

/-! ## Answers -/

/-- The counts of a graph, with its number among the graphs. -/
def statsLine (number : Nat) (g : Graph) : String :=
  let s := g.stats
  "#" ++ toString number ++ " " ++ (g.id.map Id.display).getD "" ++ ": " ++
    toString s.nodeStmts ++ " node stmts, " ++
    toString s.edgeStmts ++ " edge stmts (" ++ toString s.edges ++ " edges), " ++
    toString s.attributeStmts ++ " attr stmts, " ++
    toString s.assignments ++ " assignments, " ++
    toString s.subgraphs ++ " subgraphs\n"

/-- The outlines of all graphs. -/
def outlines (graphs : List Graph) : String := String.join (graphs.map Graph.outline)

namespace Request

/-- The outline is written if it is asked for or if nothing else is. -/
def wantsOutline (r : Request) : Bool :=
  Switch.ast ∈ r.switches || (Switch.json ∉ r.switches && Switch.stats ∉ r.switches)

/-- What is written about the graphs: JSON, outlines and counts, in this order. -/
def report (r : Request) (graphs : List Graph) : String :=
  (if Switch.json ∈ r.switches then (graphsToJson graphs).pretty ++ "\n" else "") ++
    (if r.wantsOutline then outlines graphs else "") ++
    if Switch.stats ∈ r.switches then
      String.join (graphs.zipIdx.map fun (g, number) => statsLine number g)
    else ""

/-- The log lines of a text that was read. -/
def progress (r : Request) (graphs : List Graph) : String :=
  if Switch.debug ∈ r.switches then
    let count := "Parsed " ++ toString graphs.length ++ " graph(s)"
    logLine .debug "dotparse::parser::parser" (count ++ ".") ++
      logLine .info "dotparse" (count ++ " from " ++ r.input)
  else ""

/-- What the program answers, given the file that the request names. -/
def answer (r : Request) (file : Except FileFault String) : Answer :=
  match file with
  | .error fault => ⟨1, "", failureLine ("Can't open " ++ r.input ++ ": " ++ fault.message)⟩
  | .ok source =>
    match parse source {} with
    | .error e =>
      ⟨1, "", e.annotate source ++ "\n" ++ failureLine ("Could not parse " ++ r.input)⟩
    | .ok graphs => ⟨0, r.report graphs, r.progress graphs⟩

end Request

/-- The version of the program. -/
def versionText : String := "dotparse 0.1.0\n"

/-- How the program is called. -/
def usage : String :=
  String.join [
    "Usage: dotparse [OPTIONS] <INPUT>\n",
    "\n",
    "Arguments:\n",
    "  <INPUT>  Sets the input file to use\n",
    "\n",
    "Options:\n",
    "  -d, --debug    Enables debug logging\n",
    "  -a, --ast      Dump the graph AST (the default)\n",
    "  -j, --json     Dump the graph AST as JSON\n",
    "  -s, --stats    Print statement counts for each graph\n",
    "  -h, --help     Print help\n",
    "  -V, --version  Print version\n"]

/-- What the program answers to its arguments, given a way to read files. -/
def answer {m : Type → Type} [Monad m] (readFile : String → m (Except FileFault String))
    (args : List String) : m Answer := do
  match Invocation.ofArgs args with
  | .misuse => return ⟨2, "", usage⟩
  | .help => return ⟨0, usage, ""⟩
  | .version => return ⟨0, versionText, ""⟩
  | .request r => return r.answer (← readFile r.input)

/-- What the program answers to its arguments in a tree of files, when it is called in the directory
that the names `working` lead to. -/
def answerIn (root : FileTree) (working args : List String) : Answer :=
  Id.run (answer (fun path => pure (root.read working path)) args)

end DotLang.CommandLine
