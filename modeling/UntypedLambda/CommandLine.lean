import UntypedLambda.Bound
import UntypedLambda.Text.Numeral
import UntypedLambda.Text.Quoted

/-!
# The command line

The words of a command line are options and lines to evaluate.  A long option
may be shortened as long as it stays unambiguous, and takes its value from the
next word or from behind an equals sign; of an option given twice the last
counts.  Behind `--` every word is a line.

* `Word.classify` — what kind of word a word is, taken alone.
* `CommandLine.parse` — the options of a command line; otherwise why it was
  refused, or that help was asked for.

The lines have to stand together: once some were taken, those that follow a
later option are refused, like options that do not exist.
-/

namespace UntypedLambda

/-- What is asked for on the command line. -/
structure Options where
  /-- The lines to evaluate. -/
  lines : List String
  /-- Are undefined names errors? -/
  strict : Bool
  /-- The number of contractions allowed per line. -/
  maxSteps : Bound
  /-- Is every contraction printed? -/
  trace : Bool
  /-- How deeply terms may be nested. -/
  depthLimit : Bound
  deriving DecidableEq, Repr, Inhabited

/-- The options there are. -/
inductive Flag where
  /-- Asks for help. -/
  | help
  /-- Makes undefined names errors. -/
  | strict
  /-- Bounds the number of contractions per line. -/
  | maxSteps
  /-- Prints every contraction. -/
  | trace
  /-- Bounds the nesting of terms. -/
  | depthLimit
  deriving DecidableEq, Repr, Inhabited

namespace Flag

/-- The spellings of the options, in the order in which they are listed. -/
def spellings : List (String × Flag) :=
  [("-h", .help), ("--help", .help), ("--strict", .strict), ("--max-steps", .maxSteps),
    ("--trace", .trace), ("--recursion-limit", .depthLimit)]

/-- The option with a spelling. -/
def ofSpelling? (word : String) : Option Flag := spellings.lookup word

/-- How an option is named in a message. -/
def label (f : Flag) : String :=
  String.intercalate "/" ((spellings.filter fun e => decide (e.2 = f)).map (·.1))

end Flag

/-- Why a command line does not lead to options. -/
inductive Refusal where
  /-- Help was asked for. -/
  | help
  /-- A word is a short form of several options. -/
  | ambiguous (word : String) (candidates : List String)
  /-- An option that takes no value was given one. -/
  | ignoredValue (flag : Flag) (value : String)
  /-- An option was not given the value it takes. -/
  | missingValue (flag : Flag)
  /-- The value of an option is not a number. -/
  | notANumber (flag : Flag) (value : String)
  /-- Words that are no options, or lines that stand apart. -/
  | unrecognized (words : List String)
  deriving DecidableEq, Repr, Inhabited

namespace Refusal

/-- The wording of a refusal. -/
def message : Refusal → String
  | .help => ""
  | .ambiguous word candidates =>
      "ambiguous option: " ++ word ++ " could match " ++ String.intercalate ", " candidates
  | .ignoredValue flag value =>
      "argument " ++ flag.label ++ ": ignored explicit argument " ++ quoted value
  | .missingValue flag => "argument " ++ flag.label ++ ": expected one argument"
  | .notANumber flag value => "argument " ++ flag.label ++ ": invalid int value: " ++ quoted value
  | .unrecognized words => "unrecognized arguments: " ++ String.intercalate " " words

end Refusal

/-- The value attached to an option within its word. -/
inductive Attached where
  /-- None. -/
  | none
  /-- Behind a long option and an equals sign. -/
  | value (text : String)
  /-- Behind the letter of a short option, with or without an equals sign. -/
  | cluster (letters : List Char)
  deriving DecidableEq, Repr, Inhabited

/-- What kind of word a word is. -/
inductive Word where
  /-- A line, or the value of an option. -/
  | plain (text : String)
  /-- The word `--` behind which all words are plain. -/
  | separator
  /-- An option. -/
  | option (flag : Flag) (attached : Attached)
  /-- What looks like an option that does not exist. -/
  | unknown (text : String)
  deriving DecidableEq, Repr, Inhabited

namespace Word

/-- A word in two parts at its first equals sign, if it has one. -/
def splitValue? (word : List Char) : Option (List Char × List Char) :=
  match word.dropWhile (· ≠ '=') with
  | [] => none
  | _ :: value => some (word.takeWhile (· ≠ '='), value)

/-- The long options that a word is a short form of. -/
def candidates (stem : List Char) : List (String × Flag) :=
  Flag.spellings.filter fun e => stem.isPrefixOf e.1.toList

/-- What kind of word a word is that starts with a dash, is longer than one
character, and is not an option with or without a value. -/
def classifyShort (word : List Char) : Except Refusal Word :=
  let text := String.ofList word
  let other : Word :=
    if looksNegative text || word.contains ' ' then .plain text else .unknown text
  match word with
  | '-' :: '-' :: _ =>
      let stem := ((splitValue? word).map (·.1)).getD word
      let attached :=
        ((splitValue? word).map fun p => Attached.value (String.ofList p.2)).getD .none
      match candidates stem with
      | [] => .ok other
      | [(_, flag)] => .ok (.option flag attached)
      | several => .error (.ambiguous text (several.map (·.1)))
  | dash :: letter :: rest =>
      match Flag.ofSpelling? (String.ofList [dash, letter]) with
      | some flag => .ok (.option flag (.cluster rest))
      | none => .ok other
  | _ => .ok other

/-- What kind of word a word is.  A dash alone, a negative number, and anything
with a blank in it that is not an option are plain. -/
def classify (word : String) : Except Refusal Word :=
  match word.toList with
  | '-' :: c :: rest =>
      match Flag.ofSpelling? word with
      | some flag => .ok (.option flag .none)
      | none =>
          match (splitValue? ('-' :: c :: rest)).bind fun p =>
              (Flag.ofSpelling? (String.ofList p.1)).map fun flag => (flag, p.2) with
          | some (flag, value) =>
              .ok (.option flag (if c = '-' then .value (String.ofList value) else .cluster value))
          | none => classifyShort ('-' :: c :: rest)
  | _ => .ok (.plain word)

/-- The kinds of all words of a command line. -/
def classifyAll : List String → Except Refusal (List Word)
  | [] => .ok []
  | word :: words =>
      if word = "--" then .ok (.separator :: words.map .plain)
      else
        match classify word with
        | .error e => .error e
        | .ok w => (classifyAll words).map (w :: ·)

end Word

namespace CommandLine

/-- What has been taken from a command line so far. -/
structure Taken where
  /-- The options so far. -/
  options : Options
  /-- Have lines been taken? -/
  linesTaken : Bool
  /-- The words that were not recognized. -/
  extras : List String
  deriving DecidableEq, Repr, Inhabited

/-- Nothing is asked for. -/
def noOptions : Options := ⟨[], false, .none, false, .none⟩

/-- Asks for help by a short option with letters behind it.  The letter of the
option may be repeated; what follows is refused as a value. -/
def helpCluster (letters : List Char) : Refusal :=
  match letters.dropWhile (· = 'h') with
  | [] => if letters.isEmpty then .ignoredValue .help "" else .help
  | rest => .ignoredValue .help (String.ofList rest)

/-- Sets an option that takes no value. -/
def setSwitch (t : Taken) (flag : Flag) (attached : Attached) : Except Refusal Taken :=
  match flag, attached with
  | .help, .none => .error .help
  | .help, .cluster letters => .error (helpCluster letters)
  | .strict, .none => .ok { t with options := { t.options with strict := true } }
  | .trace, .none => .ok { t with options := { t.options with trace := true } }
  | flag, .value value => .error (.ignoredValue flag value)
  | flag, .cluster letters => .error (.ignoredValue flag (String.ofList letters))
  | _, .none => .ok t

/-- The bound that the value of an option stands for.  The word `--` is dropped
from a value as it is from the lines, which leaves a blank bound. -/
def readBound? (value : String) : Option Bound :=
  if value = "--" then some .blank else (readInt? value).map .number

/-- Sets an option that takes a number. -/
def setNumber (t : Taken) (flag : Flag) (value : String) : Except Refusal Taken :=
  match readBound? value with
  | none => .error (.notANumber flag value)
  | some bound =>
      match flag with
      | .maxSteps => .ok { t with options := { t.options with maxSteps := bound } }
      | _ => .ok { t with options := { t.options with depthLimit := bound } }

/-- Takes the lines that have been collected.  The first `--` among them is
dropped; if lines have been taken before, these are not recognized. -/
def takeLines (t : Taken) (collected : List String) : Taken :=
  if collected.isEmpty then t
  else if t.linesTaken then { t with extras := t.extras ++ collected }
  else { t with linesTaken := true, options := { t.options with lines := collected.erase "--" } }

/-- Takes words from left to right.  `collected` holds the plain words since the
last option. -/
def consume : List Word → List String → Taken → Except Refusal Taken
  | [], collected, t => .ok (takeLines t collected)
  | .plain text :: words, collected, t => consume words (collected ++ [text]) t
  | .separator :: words, collected, t => consume words (collected ++ ["--"]) t
  | .unknown text :: words, collected, t =>
      let t := takeLines t collected
      consume words [] { t with extras := t.extras ++ [text] }
  | .option flag attached :: words, collected, t =>
      let t := takeLines t collected
      if flag = .maxSteps ∨ flag = .depthLimit then
        match attached, words with
        | .value value, words =>
            match setNumber t flag value with
            | .error e => .error e
            | .ok t => consume words [] t
        | _, .plain value :: words =>
            match setNumber t flag value with
            | .error e => .error e
            | .ok t => consume words [] t
        | _, _ => .error (.missingValue flag)
      else
        match setSwitch t flag attached with
        | .error e => .error e
        | .ok t => consume words [] t

/-- The options of a command line. -/
def parse (words : List String) : Except Refusal Options :=
  match Word.classifyAll words with
  | .error e => .error e
  | .ok ws =>
      match consume ws [] ⟨noOptions, false, []⟩ with
      | .error e => .error e
      | .ok t => if t.extras.isEmpty then .ok t.options else .error (.unrecognized t.extras)

/-- How the program is called. -/
def usage : String :=
  "usage: lambdaline [-h] [--strict] [--max-steps N] [--trace]\n" ++
  "                  [--recursion-limit N]\n" ++
  "                  [lines ...]\n"

/-- What the program does and what its options mean. -/
def help : String :=
  usage ++ "\n" ++
  "Untyped lambda calculus interpreter.\n" ++ "\n" ++
  "positional arguments:\n" ++
  "  lines                lines to evaluate in order (if empty, goes to command-\n" ++
  "                       line mode)\n" ++ "\n" ++
  "options:\n" ++
  "  -h, --help           show this help message and exit\n" ++
  "  --strict             treat names that are not defined as errors\n" ++
  "  --max-steps N        give up on a line after N beta reductions\n" ++
  "  --trace              print every beta reduction\n" ++
  "  --recursion-limit N  python recursion limit, bounds how deeply nested a term\n" ++
  "                       can be\n"

/-- What is printed about a command line that was refused. -/
def complaint (r : Refusal) : String := usage ++ "lambdaline: error: " ++ r.message ++ "\n"

end CommandLine

end UntypedLambda
