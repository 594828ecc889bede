/-
  SeededRows.CommandLine.Arguments

  Reads the words of a command line from left to right. The first problem or request for help
  decides; what has to be given and what excludes one another is checked at the end.
-/
import SeededRows.Decimal.Reading
import SeededRows.RunFile.Config
import SeededRows.Word

namespace SeededRows.CommandLine

/-- What the command that generates rows was given. -/
structure GenerateArgs where
  config : Option String
  seed : Option Int64
  unseeded : Bool
  workers : Option UInt64
  rows : Option UInt64
  batchSize : Option UInt64
  verbose : Bool
  logJson : Bool
  logFile : Option String
  out : Option String
deriving DecidableEq, Repr

/-- What a command line asks for. -/
inductive Invocation
  | generate (config : String) (args : GenerateArgs)
  | schema
  /-- Help, or the version. -/
  | information
  | misuse
deriving DecidableEq, Repr

namespace GenerateArgs

/-- Nothing is given. -/
def none : GenerateArgs := ⟨.none, .none, false, .none, .none, .none, false, false, .none, .none⟩

/-- What wins over the run file. -/
def overrides (a : GenerateArgs) : Overrides :=
  ⟨a.seed, a.unseeded, a.workers, a.rows, a.batchSize, a.verbose⟩

end GenerateArgs

/-! ## Values -/

/-- An integer in decimal with an optional sign. -/
def integer? (s : String) : Option Int :=
  let (negative, ds) := Decimal.splitSign s.toList
  if ds ≠ [] ∧ ds.all Char.isDigit then
    let n : Int := Decimal.digitsValue ds
    some (if negative then -n else n)
  else none

/-- A signed integer of 64 bits. -/
def int? (s : String) : Option Int64 := (integer? s).bind Word.signed?

/-- An unsigned integer of 64 bits; a minus is refused even before zero. -/
def uint? (s : String) : Option UInt64 :=
  if s.startsWith "-" then none else (integer? s).bind Word.unsigned?

/-- A path, which is not empty. -/
def path? (s : String) : Option String := if s.isEmpty then none else some s

/-! ## Options -/

/-- The options of the command that generates rows. -/
inductive Opt
  | config
  | seed
  | unseeded
  | workers
  | rows
  | batchSize
  | verbose
  | logJson
  | logFile
  | out
  | help
deriving DecidableEq, Repr

namespace Opt

/-- The option of a long name. -/
def ofName? : String → Option Opt
  | "config" => some config
  | "seed" => some seed
  | "unseeded" => some unseeded
  | "workers" => some workers
  | "rows" => some rows
  | "batch-size" => some batchSize
  | "verbose" => some verbose
  | "log-json" => some logJson
  | "log-file" => some logFile
  | "out" => some out
  | "help" => some help
  | _ => none

/-- The option of a letter. -/
def ofLetter? (c : Char) : Option Opt :=
  if c = 'c' then some config
  else if c = 'v' then some verbose
  else if c = 'h' then some help
  else none

/-- Whether an option takes a value. -/
def takesValue : Opt → Bool
  | unseeded | verbose | logJson | help => false
  | _ => true

end Opt

/-- Sets what must not be set yet. -/
def once {α : Type} (old new : Option α) : Option (Option α) :=
  match old, new with
  | none, some a => some (some a)
  | _, _ => none

/-- Takes an option with its value. -/
def GenerateArgs.take? (a : GenerateArgs) (o : Opt) (value : String) : Option GenerateArgs :=
  match o with
  | .config => (once a.config (path? value)).map fun config => { a with config }
  | .seed => (once a.seed (int? value)).map fun seed => { a with seed }
  | .workers => (once a.workers (uint? value)).map fun workers => { a with workers }
  | .rows => (once a.rows (uint? value)).map fun rows => { a with rows }
  | .batchSize => (once a.batchSize (uint? value)).map fun batchSize => { a with batchSize }
  | .logFile => (once a.logFile (path? value)).map fun logFile => { a with logFile }
  | .out => (once a.out (path? value)).map fun out => { a with out }
  | _ => none

/-- Takes an option without a value. -/
def GenerateArgs.flag? (a : GenerateArgs) : Opt → Option GenerateArgs
  | .unseeded => if a.unseeded then none else some { a with unseeded := true }
  | .verbose => if a.verbose then none else some { a with verbose := true }
  | .logJson => if a.logJson then none else some { a with logJson := true }
  | _ => none

/-- Whether a word can be the value of the option before it: it must not look like an option. -/
def isValue (word : String) : Bool := !word.startsWith "-" || word == "-"

/-! ## Words -/

/-- What a word with letters after one hyphen leads to. -/
inductive Letters
  | done (a : GenerateArgs)
  /-- The last letter is an option whose value is the next word. -/
  | needsValue (a : GenerateArgs) (o : Opt)
  | information
  | misuse

/-- Takes the letters after a hyphen. The rest of the word after a letter that takes a value is its
value, where an equals sign may stand between. -/
def letters (a : GenerateArgs) : List Char → Letters
  | [] => .done a
  | c :: rest =>
    match Opt.ofLetter? c with
    | none => .misuse
    | some .help => .information
    | some o =>
      if o.takesValue then
        match rest with
        | [] => .needsValue a o
        | '=' :: value => ((a.take? o (String.ofList value)).map .done).getD .misuse
        | value => ((a.take? o (String.ofList value)).map .done).getD .misuse
      else
        match a.flag? o with
        | some a => letters a rest
        | none => .misuse

/-- Checks what the command that generates rows was given as a whole. -/
def complete (a : GenerateArgs) : Invocation :=
  match a.config with
  | some config => if a.seed.isSome ∧ a.unseeded then .misuse else .generate config a
  | none => .misuse

/-- Reads the words after the command that generates rows. -/
def generate (a : GenerateArgs) : List String → Invocation
  | [] => complete a
  | ["--"] => complete a
  | word :: words =>
    if word.startsWith "--" then
      let (name, value) := match (word.toList.drop 2).span (· ≠ '=') with
        | (name, []) => (String.ofList name, none)
        | (name, _ :: value) => (String.ofList name, some (String.ofList value))
      match Opt.ofName? name, value, words with
      | some .help, none, _ => .information
      | some o, some value, words =>
        if o.takesValue then
          match a.take? o value with
          | some a => generate a words
          | none => .misuse
        else .misuse
      | some o, none, words =>
        if o.takesValue then
          match words with
          | value :: words =>
            if isValue value then
              match a.take? o value with
              | some a => generate a words
              | none => .misuse
            else .misuse
          | [] => .misuse
        else
          match a.flag? o with
          | some a => generate a words
          | none => .misuse
      | none, _, _ => .misuse
    else if word.startsWith "-" ∧ word ≠ "-" then
      match letters a (word.toList.drop 1) with
      | .done a => generate a words
      | .needsValue a o =>
        match words with
        | value :: words =>
          if isValue value then
            match a.take? o value with
            | some a => generate a words
            | none => .misuse
          else .misuse
        | [] => .misuse
      | .information => .information
      | .misuse => .misuse
    else .misuse

/-- Whether a word asks for help. -/
def isHelp (word : String) : Bool := word == "--help" || word == "-h"

/-- Whether a first word asks for help or for the version. -/
def isInformation (word : String) : Bool :=
  isHelp word || word == "--version" || (word.startsWith "-h" || word.startsWith "-V")

/-- Reads a command line. -/
def Invocation.ofWords : List String → Invocation
  | "generate" :: words => CommandLine.generate GenerateArgs.none words
  | ["schema"] => .schema
  | ["schema", "--"] => .schema
  | "schema" :: word :: _ => if isHelp word || word.startsWith "-h" then .information else .misuse
  | ["help"] => .information
  | ["help", name] => if name ∈ ["generate", "schema", "help"] then .information else .misuse
  | word :: _ => if isInformation word then .information else .misuse
  | [] => .misuse

end SeededRows.CommandLine
