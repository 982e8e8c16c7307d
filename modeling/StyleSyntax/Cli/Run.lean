import StyleSyntax.Cli.Arguments
import StyleSyntax.Cli.Files
import StyleSyntax.Document.Basic
import StyleSyntax.Document.Report
import StyleSyntax.Tree.Dump
import StyleSyntax.Tree.Json

/-!
# The command line

What a command prints and whether it succeeds, given a way to read files. Results go to the standard
output, and messages about files to the standard error. A command line that cannot be understood
ends with code 2, a command that fails with code 1.
-/

namespace StyleSyntax.Cli

/-- What a command prints, and its exit code. -/
structure Output where
  code : Nat := 0
  stdout : Text := []
  stderr : Text := []
deriving DecidableEq

namespace Output

/-- A success that prints a text. -/
def printing (text : Text) : Output :=
  { stdout := text }

/-- A failure with a message. -/
def failing (message : Text) : Output :=
  { code := 1, stderr := message }

/-- One output after another; it fails if one of them does. -/
def andThen (first second : Output) : Output :=
  ⟨max first.code second.code, first.stdout ++ second.stdout, first.stderr ++ second.stderr⟩

end Output

/-- The language that the options choose. -/
def Invocation.dialect (invocation : Invocation) : Dialect :=
  if invocation.css then .css else .jss

/-- The configuration that the options choose. -/
def Invocation.config (invocation : Invocation) : LexerConfig :=
  { joinSymbols := invocation.joinSymbols }

/-- Reads a file and goes on with its text. -/
def withSource (read : FileReader) (file : Text) (next : Text → Output) : Output :=
  match read file with
  | .ok source => next source
  | .error fault => .failing (file ++ ": ".toList ++ fault.message ++ ['\n'])

/-- Reads a file as a stylesheet and goes on with its text and its tree. -/
def withSheet (read : FileReader) (invocation : Invocation) (file : Text)
    (next : Text → Stylesheet → Output) : Output :=
  withSource read file fun source =>
    match parseDocument source invocation.config invocation.dialect with
    | .ok sheet => next source sheet
    | .failed error => .failing (report file source error.position error.wording)
    | .endless => .failing []

/-- The line of a token: position, kind and quoted text. -/
def tokenLine (token : Token) : Text :=
  token.position.text ++ ' ' :: token.kind.name ++ ' ' :: Text.quoted token.value ++ ['\n']

/-- Prints the tokens of a file. -/
def runTokens (read : FileReader) (invocation : Invocation) (file : Text) : Output :=
  withSource read file fun source =>
    match documentTokens invocation.config source with
    | .ok tokens =>
      if invocation.json then
        .printing ((Json.array (tokens.map Json.ofToken)).render ++ ['\n'])
      else .printing (tokens.flatMap tokenLine)
    | .error error => .failing (report file source error.position error.fault.message)

/-- Prints the tree of a file. -/
def runParse (read : FileReader) (invocation : Invocation) (file : Text) : Output :=
  withSheet read invocation file fun _ sheet =>
    if invocation.json then .printing ((Json.ofStylesheet sheet).render ++ ['\n'])
    else .printing (dump sheet)

/-- Tells that a file is a stylesheet, and how many nodes it has. -/
def runCheck (read : FileReader) (invocation : Invocation) (file : Text) : Output :=
  withSheet read invocation file fun _ sheet =>
    { stderr := file ++ ": ok (".toList ++ Text.ofNat (countNodes sheet) ++ " nodes)\n".toList }

/-- Prints a file back from its tree, and compares it with what was read. -/
def runPrint (read : FileReader) (invocation : Invocation) (file : Text) : Output :=
  withSheet read invocation file fun source sheet =>
    let text := toSource sheet
    if text = withoutMark source then .printing text
    else { code := 1, stdout := text, stderr := file ++ ": output differs from source\n".toList }

/-- Runs a command on all its files in order. -/
def Invocation.run (read : FileReader) (invocation : Invocation) : Output :=
  let command := match invocation.name with
    | .tokens => runTokens
    | .parse => runParse
    | .check => runCheck
    | .print => runPrint
  (invocation.files.map (command read invocation)).foldl Output.andThen {}

/-- How the program is used. -/
def helpText : Text :=
  String.toList <| String.intercalate "\n"
    ["Inspect and validate JSS stylesheets", "",
      "Usage: jss [OPTIONS] <COMMAND>", "",
      "Commands:",
      "  tokens  Print the token list of a file",
      "  parse   Print the syntax tree of a file",
      "  check   Check that files parse",
      "  print   Parse a file and print it back from the tree",
      "  help    Print this message or the help of the given subcommand(s)", "",
      "Options:",
      "  -v, --verbose...    Raise log verbosity",
      "      --join-symbols  Emit one symbol token per run of punctuation instead of per character",
      "  -h, --help          Print help",
      "  -V, --version       Print version", ""]

/-- Does what a command line asks for. -/
def run (read : FileReader) (arguments : List Text) : Output :=
  match requestOf arguments with
  | .run invocation => invocation.run read
  | .help => .printing helpText
  | .version => .printing "jss 0.1.0\n".toList
  | .misuse => { code := 2, stderr := helpText }

end StyleSyntax.Cli
