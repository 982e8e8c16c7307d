import StyleSyntax.Text.Position

/-!
# Command-line arguments

A command line names one of four commands and the files it works on. Options for all commands may
stand before or after the name, options of a command only after it. A flag that is given twice in
one of the two places is an error, except for the verbosity, which may be raised several times; it
governs a log and changes no result. After two dashes everything is a file name.
-/

namespace StyleSyntax.Cli

/-- The commands. -/
inductive CommandName where
  | tokens
  | parse
  | check
  | print
deriving DecidableEq

namespace CommandName

/-- The word for a command. -/
def text : CommandName → Text
  | tokens => "tokens".toList
  | parse => "parse".toList
  | check => "check".toList
  | print => "print".toList

/-- The command with this word. -/
def ofText? (word : Text) : Option CommandName :=
  [tokens, parse, check, print].find? fun name => name.text == word

/-- Commands that can print JSON. -/
def takesJson : CommandName → Bool
  | tokens | parse => true
  | check | print => false

/-- Commands that read a stylesheet and can be told its language. -/
def takesCss : CommandName → Bool
  | tokens => false
  | parse | check | print => true

/-- The command that takes several files. -/
def takesManyFiles : CommandName → Bool
  | check => true
  | tokens | parse | print => false

end CommandName

/-- A command with its files and options. -/
structure Invocation where
  name : CommandName
  files : List Text := []
  json : Bool := false
  css : Bool := false
  joinSymbols : Bool := false
deriving DecidableEq

/-- What a command line asks for. -/
inductive Request where
  | run (invocation : Invocation)
  | help
  | version
  /-- The command line is not a valid one. -/
  | misuse
deriving DecidableEq

/-- A word that looks like an option: it begins with a dash and is not the dash alone. -/
def isOption (word : Text) : Bool :=
  word.head? == some '-' && 1 < word.length

/-- Reads one-letter options from left to right, up to one that settles what is asked for. -/
def readLetters (knowsVersion : Bool) : Text → Option Request
  | [] => none
  | c :: rest =>
    if c = 'v' then readLetters knowsVersion rest
    else if c = 'h' then some .help
    else if c = 'V' ∧ knowsVersion then some .version
    else some .misuse

/-- Adds a file, unless its name is empty or there is one too many. -/
def Invocation.addFile? (invocation : Invocation) (file : Text) : Option Invocation :=
  if file.isEmpty then none
  else if invocation.name.takesManyFiles || invocation.files.isEmpty then
    some { invocation with files := invocation.files ++ [file] }
  else none

/-- Adds the files after two dashes. -/
def Invocation.addFiles? (invocation : Invocation) : List Text → Option Invocation
  | [] => some invocation
  | file :: rest => do (← invocation.addFile? file).addFiles? rest

/-- A command needs a file. -/
def Invocation.request (invocation : Invocation) : Request :=
  if invocation.files.isEmpty then .misuse else .run invocation

/-- Reads the words after the name of a command. `joined` tells whether symbols are to be joined
because of an option after the name. -/
def readCommand (invocation : Invocation) (joined : Bool) : List Text → Request
  | [] => { invocation with joinSymbols := invocation.joinSymbols || joined : Invocation }.request
  | word :: rest =>
    if word = "--json".toList then
      if invocation.name.takesJson && !invocation.json then
        readCommand { invocation with json := true } joined rest
      else .misuse
    else if word = "--css".toList then
      if invocation.name.takesCss && !invocation.css then
        readCommand { invocation with css := true } joined rest
      else .misuse
    else if word = "--join-symbols".toList then
      if joined then .misuse else readCommand invocation true rest
    else if word = "--verbose".toList then readCommand invocation joined rest
    else if word = "--help".toList then .help
    else if word = "--".toList then
      match invocation.addFiles? rest with
      | some invocation =>
        { invocation with joinSymbols := invocation.joinSymbols || joined : Invocation }.request
      | none => .misuse
    else if isOption word then
      match readLetters false word.tail with
      | none => readCommand invocation joined rest
      | some request => request
    else
      match invocation.addFile? word with
      | some invocation => readCommand invocation joined rest
      | none => .misuse

/-- Help may be asked for in general or for one command. -/
def readHelp : List Text → Request
  | [] => .help
  | [word] =>
    if (CommandName.ofText? word).isSome || word == "help".toList then .help else .misuse
  | _ => .misuse

/-- Reads a command line from its beginning. -/
def readArguments (joined : Bool) : List Text → Request
  | [] => .misuse
  | word :: rest =>
    if word = "--join-symbols".toList then
      if joined then .misuse else readArguments true rest
    else if word = "--verbose".toList then readArguments joined rest
    else if word = "--help".toList then .help
    else if word = "--version".toList then .version
    else if isOption word then
      match readLetters true word.tail with
      | none => readArguments joined rest
      | some request => request
    else if word = "help".toList then readHelp rest
    else
      match CommandName.ofText? word with
      | some name => readCommand { name, joinSymbols := joined } false rest
      | none => .misuse

/-- What a command line asks for. -/
def requestOf (arguments : List Text) : Request :=
  readArguments false arguments

end StyleSyntax.Cli
