import NcProgram.Text.Digit
import NcProgram.Text.Quoted

namespace NcProgram.Command

inductive Flag where
  | help
  | snippet
  | tree
  | echo
  | verbose
  deriving DecidableEq

namespace Flag

/-- All spellings of flags, in the order in which they are listed. -/
def spellings : List (String × Flag) :=
  [("-h", help), ("--help", help), ("--snippet", snippet), ("--tree", tree), ("--echo", echo),
    ("-v", verbose), ("--verbose", verbose)]

def title (f : Flag) : String :=
  "/".intercalate ((spellings.filter (·.2 = f)).map Prod.fst)

def ofLetter? (c : Char) : Option Flag :=
  spellings.lookup (String.ofList ['-', c])

end Flag

inductive Misuse where
  /-- A flag was given a value that it does not take. -/
  | ignoredValue (flag : Flag) (value : String)
  | conflict (flag other : Flag)
  | ambiguous (word : String) (spellings : List String)
  | unrecognized (words : List String)
  deriving DecidableEq

def Misuse.message : Misuse → String
  | ignoredValue flag value =>
    "argument " ++ flag.title ++ ": ignored explicit argument " ++ Text.quoted value
  | conflict flag other =>
    "argument " ++ flag.title ++ ": not allowed with argument " ++ other.title
  | ambiguous word spellings =>
    "ambiguous option: " ++ word ++ " could match " ++ ", ".intercalate spellings
  | unrecognized words => "unrecognized arguments: " ++ " ".intercalate words

/-- A word by its form. -/
inductive Word where
  | operand (text : String)
  /-- Flags written in one word; `bad` is a value that the last of them does not take. -/
  | flags (flags : List Flag) (bad : Option String)
  | unknown (text : String)

/-- The letters behind a short flag: more short flags, as far as they are known. -/
def letters (first : Flag) : List Char → List Flag × Option String
  | [] => ([first], none)
  | c :: cs =>
    match Flag.ofLetter? c with
    | some next =>
      let (flags, bad) := letters next cs
      (first :: flags, bad)
    | none => ([first], some (String.ofList (c :: cs)))

/-- A word of a flag and the text that is joined to it. -/
def Word.ofShort (flag : Flag) (rest : List Char) : Word :=
  let (known, bad) := letters flag rest
  .flags known bad

/-- Digits behind a dash, perhaps with a point in front of the last of them; a line feed may
follow. Such a word is a number and no flag. -/
def isNegativeNumber (word : List Char) : Bool :=
  let isDigit (c : Char) : Bool := (Text.decimalDigit? c).isSome
  match word with
  | '-' :: digits =>
    let digits := if digits.getLast? = some '\n' then digits.dropLast else digits
    match digits.dropWhile isDigit with
    | [] => !digits.isEmpty
    | '.' :: places => !places.isEmpty && places.all isDigit
    | _ => false
  | _ => false

/-- The part of a word before its first equals sign and, if there is one, the part behind it. -/
def splitAtEquals (word : List Char) : String × Option (List Char) :=
  let name := word.takeWhile (· ≠ '=')
  (String.ofList name, (word.drop name.length).tail?)

/-- A word that is no flag. -/
def Word.isOperand : Word → Bool
  | .operand _ => true
  | _ => false

/-- Sort a word. A dash alone is an operand, and so is a word that starts like a flag but is a
number or holds a space. -/
def Word.ofText (text : String) : Except Misuse Word :=
  match text.toList with
  | '-' :: c :: cs =>
    let word := '-' :: c :: cs
    let (name, value) := splitAtEquals word
    let unlisted : Word :=
      if isNegativeNumber word || word.contains ' ' then .operand text else .unknown text
    match Flag.spellings.lookup text, Flag.spellings.lookup name, value with
    | some flag, _, _ => .ok (.flags [flag] none)
    | none, some flag, some value =>
      if c = '-' || value.isEmpty then .ok (.flags [flag] (some (String.ofList value)))
      else .ok (.ofShort flag value)
    | none, _, _ =>
      if c = '-' then
        match Flag.spellings.filter fun s => s.1.startsWith name with
        | [] => .ok unlisted
        | [(_, flag)] => .ok (.flags [flag] (value.map String.ofList))
        | several => .error (.ambiguous text (several.map Prod.fst))
      else
        match Flag.ofLetter? c with
        | some flag => .ok (.ofShort flag cs)
        | none => .ok unlisted
  | _ => .ok (.operand text)

inductive View where
  | summary
  | tree
  | echo
  deriving DecidableEq

structure Options where
  source : Option String
  snippet : Bool
  view : View
  verbosity : Nat
  deriving DecidableEq

namespace Options

def plain : Options :=
  ⟨none, false, .summary, 0⟩

end Options

inductive Request where
  | run (options : Options)
  | help
  | misuse (m : Misuse)
  deriving DecidableEq

/-- What was taken from the words so far; `extra` are the words that no one wanted. -/
structure Taken where
  options : Options
  extra : List String

namespace Taken

/-- Choose a view, which excludes the other one. -/
def choose (t : Taken) (flag other : Flag) (view excluded : View) : Except Request Taken :=
  if t.options.view = excluded then .error (.misuse (.conflict flag other))
  else .ok { t with options := { t.options with view := view } }

/-- Do what a flag asks for. Help ends everything at once. -/
def flag (t : Taken) : Flag → Except Request Taken
  | .help => .error .help
  | .snippet => .ok { t with options := { t.options with snippet := true } }
  | .tree => t.choose .tree .echo .tree .echo
  | .echo => t.choose .echo .tree .echo .tree
  | .verbose =>
    .ok { t with options := { t.options with verbosity := t.options.verbosity + 1 } }

/-- Take a word that is no flag: the first is the source. -/
def operand (t : Taken) (text : String) : Taken :=
  match t.options.source with
  | none => { t with options := { t.options with source := some text } }
  | some _ => { t with extra := t.extra ++ [text] }

/-- Take one word. A value that a flag does not take is found before its word has any effect. -/
def word (t : Taken) : Word → Except Request Taken
  | .operand text => .ok (t.operand text)
  | .unknown text => .ok { t with extra := t.extra ++ [text] }
  | .flags flags bad =>
    match bad, flags.getLast? with
    | some value, some last => .error (.misuse (.ignoredValue last value))
    | _, _ => flags.foldlM flag t

/-- Take the words behind a double dash. The double dash goes with the source, which is the word
right before it or else the next; where it does not belong to a source no one wants it. -/
def operands (t : Taken) (afterSource : Bool) (words : List String) : Taken :=
  if t.options.source.isNone || afterSource then words.foldl operand t
  else { t with extra := t.extra ++ "--" :: words }

end Taken

/-- The words before the first double dash, and those behind it if there is one. -/
def splitAtDoubleDash : List String → List String × Option (List String)
  | [] => ([], none)
  | w :: ws =>
    if w = "--" then ([], some ws)
    else
      let (before, behind) := splitAtDoubleDash ws
      (w :: before, behind)

/-- The source is the last of the words. -/
def endsWithSource (words : List Word) : Bool :=
  match words.reverse with
  | last :: before => last.isOperand && !before.any Word.isOperand
  | [] => false

def takeAll (words : List Word) (behind : Option (List String)) : Except Request Options := do
  let taken ← words.foldlM Taken.word ⟨.plain, []⟩
  let taken := match behind with
    | some operands => taken.operands (endsWithSource words) operands
    | none => taken
  if taken.extra.isEmpty then pure taken.options
  else .error (.misuse (.unrecognized taken.extra))

def Request.ofWords (words : List String) : Request :=
  let (before, behind) := splitAtDoubleDash words
  match before.mapM Word.ofText with
  | .error m => .misuse m
  | .ok sorted =>
    match takeAll sorted behind with
    | .ok options => .run options
    | .error request => request

def usage : String :=
  "usage: gcode-cst [-h] [--snippet] [--tree | --echo] [-v] [source]\n"

def helpText : String :=
  usage ++ "\nParse an NC program into a lossless syntax tree.\n\npositional arguments:\n" ++
    "  source         Path, '-' for stdin, or literal program text\n\noptions:\n" ++
    "  -h, --help     show this help message and exit\n" ++
    "  --snippet      Parse as a fragment without % delimiters\n" ++
    "  --tree         Print the syntax tree\n" ++
    "  --echo         Print the source rebuilt from the tree\n" ++
    "  -v, --verbose  Log parser activity\n"

end NcProgram.Command
