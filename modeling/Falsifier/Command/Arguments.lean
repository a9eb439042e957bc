/-!
# Arguments

The words of a command line are flags (`--name`), options with a value (`--name value` or
`--name=value`) and operands (everything else). A name follows two dashes or more, and the value in
the same word one equals sign or more; a value in a word of its own is taken as it is. A flag has no
use for a value and ignores it. A word that starts with a dash is never a value or an operand, except
a lone dash; after `--` all words are operands.

Words are judged from left to right. A word that no command knows ends the reading, and so does a
request for help or for the version, whichever comes first. That an option has no value, or that a
flag or an option was given twice, is held against the words only when all of them have been read.
-/

namespace Falsifier.Command

/-- What a command accepts, and the words by which it is called. -/
structure Accepts where
  path : List String
  flags : List String
  options : List String
  operands : Nat

/-- Why no command is run. -/
inductive Refusal where
  /-- The usage was asked for. -/
  | help
  /-- The version was asked for, of the command that is called by these words. -/
  | version (path : List String)
  /-- The words do not fit any command. -/
  | misuse
deriving DecidableEq

/-- A word on its own. -/
inductive Word where
  | separator
  | long (name : String) (value : Option String)
  | short (letter : Char)
  | plain (text : String)
deriving DecidableEq

namespace Word

/-- The value in a long word, from the equals sign on. -/
def valueOf : List Char → Option String
  | [] => none
  | cs => some (String.ofList (cs.dropWhile (· = '=')))

/-- The part of a long word after its dashes: a name, and a value if there is an equals sign. -/
def ofBody (body : List Char) : Word :=
  long (String.ofList (body.takeWhile (· ≠ '='))) (valueOf (body.dropWhile (· ≠ '=')))

/-- Classify a word by the dashes it starts with. Of a short word the first letter decides. -/
def ofString (text : String) : Word :=
  match text.toList with
  | ['-', '-'] => separator
  | '-' :: '-' :: body => ofBody (body.dropWhile (· = '-'))
  | '-' :: c :: _ => short c
  | _ => plain text

/-- Whether the word can stand as a value or an operand. -/
def isPlain : Word → Bool
  | plain _ => true
  | separator | long _ _ | short _ => false

end Word

/-- What a word says that a command does not accept: every command knows `--help`, `-h`, `--version`
and `-V`. -/
def Refusal.ofWord (path : List String) : Word → Refusal
  | .long name _ =>
    if name = "help" then .help else if name = "version" then .version path else .misuse
  | .short letter =>
    if letter = 'h' then .help else if letter = 'V' then .version path else .misuse
  | .separator | .plain _ => .misuse

/-- What a command was given. -/
structure Arguments where
  flags : List String
  options : List (String × String)
  operands : List String
  /-- Whether an option has no value, or a flag or an option was given twice. -/
  spoiled : Bool

namespace Arguments

def none : Arguments := ⟨[], [], [], false⟩

def value? (a : Arguments) (name : String) : Option String :=
  a.options.lookup name

/-- Hold something against the arguments. -/
def spoil (a : Arguments) : Arguments :=
  { a with spoiled := true }

/-- Add a flag, which must not have been given before. -/
def addFlag (a : Arguments) (name : String) : Arguments :=
  if a.flags.contains name then a.spoil else { a with flags := name :: a.flags }

/-- Add an option, which must not have been given before. -/
def addOption (a : Arguments) (name value : String) : Arguments :=
  if (a.value? name).isSome then a.spoil else { a with options := (name, value) :: a.options }

/-- Add operands, unless there are more than accepted. -/
def addOperands (a : Arguments) (accepts : Accepts) (texts : List String) :
    Except Refusal Arguments :=
  let operands := a.operands ++ texts
  if accepts.operands < operands.length then .error .misuse else .ok { a with operands }

/-- Go through the words and add what they give to `a`. -/
def scan (accepts : Accepts) (a : Arguments) : List String → Except Refusal Arguments
  | [] => .ok a
  | w :: ws =>
    match Word.ofString w with
    | .separator => a.addOperands accepts ws
    | .plain text => do scan accepts (← a.addOperands accepts [text]) ws
    | .short letter => .error (.ofWord accepts.path (.short letter))
    | .long name value =>
      if accepts.flags.contains name then scan accepts (a.addFlag name) ws
      else if accepts.options.contains name then
        match value, ws with
        | some value, ws => scan accepts (a.addOption name value) ws
        | Option.none, v :: rest =>
          if (Word.ofString v).isPlain then scan accepts (a.addOption name v) rest
          else scan accepts a.spoil (v :: rest)
        | Option.none, [] => .ok a.spoil
      else .error (.ofWord accepts.path (.long name value))

def ofWords (accepts : Accepts) (words : List String) : Except Refusal Arguments := do
  let a ← none.scan accepts words
  if a.spoiled then throw .misuse else return a

/-- The value of an option that must be given. -/
def required (a : Arguments) (name : String) : Except Refusal String :=
  match a.value? name with
  | some value => .ok value
  | Option.none => .error .misuse

end Arguments
end Falsifier.Command
