import Falsifier.Command.Arguments

/-!
# Commands

The commands of the program, as their words give them. Numbers are kept as text here: a command
reads them when it comes to need them, so that an unused or later number is not judged before an
earlier failure.
-/

namespace Falsifier

/-- What the program is asked to do. -/
inductive Command where
  /-- Look for a falsifying assignment for the formula in a file, or on standard input. -/
  | solve (file : Option String) (exhaustive : Bool) (maxIterations maxStall seed : Option String)
  /-- Print a random formula. -/
  | generateRandom (vars clauses : String) (seed : Option String)
  /-- Print the negation of a formula from the catalogue. -/
  | generateHard (index : String)

namespace Command

def programName : String := "dnfsat"

def solveOfArgs (words : List String) : Except Refusal Command := do
  let a ← Arguments.ofWords
    ⟨["solve"], ["exhaustive"], ["max-iterations", "max-stall", "seed"], 1⟩ words
  return .solve a.operands.head? (a.flags.contains "exhaustive")
    (a.value? "max-iterations") (a.value? "max-stall") (a.value? "seed")

def randomOfArgs (words : List String) : Except Refusal Command := do
  let a ← Arguments.ofWords
    ⟨["generate", "random"], [], ["variables", "clauses", "seed"], 0⟩ words
  return .generateRandom (← a.required "variables") (← a.required "clauses") (a.value? "seed")

def hardOfArgs (words : List String) : Except Refusal Command := do
  let a ← Arguments.ofWords ⟨["generate", "hard"], [], ["index"], 0⟩ words
  return .generateHard (← a.required "index")

/-- What the words after `help` ask for: the usage, if they name one of the topics. -/
def helpOn (topics : List (List String)) (topic : List String) : Refusal :=
  if topics.contains topic then .help else .misuse

def generateOfArgs : List String → Except Refusal Command
  | "random" :: words => randomOfArgs words
  | "hard" :: words => hardOfArgs words
  | "help" :: topic => .error (helpOn [[], ["random"], ["hard"], ["help"]] topic)
  | word :: _ => .error (.ofWord ["generate"] (Word.ofString word))
  | [] => .error .misuse

def ofArgs : List String → Except Refusal Command
  | "solve" :: words => solveOfArgs words
  | "generate" :: words => generateOfArgs words
  | "help" :: topic =>
    .error (helpOn [[], ["solve"], ["generate"], ["generate", "random"], ["generate", "hard"],
      ["help"]] topic)
  | word :: _ => .error (.ofWord [] (Word.ofString word))
  | [] => .error .misuse

/-- How the program is called. -/
def usage : String :=
  s!"usage: {programName} solve [FILE] [--exhaustive] [--max-iterations N] [--max-stall N]" ++
  s!" [--seed N]\n       {programName} generate random --variables N --clauses N [--seed N]\n" ++
  s!"       {programName} generate hard --index N\n"

/-- What is printed for the version of the command that is called by these words: its name alone, as
commands have no versions of their own. -/
def versionText (path : List String) : String :=
  "-".intercalate (programName :: path) ++ " \n"

/-- The file that the command reads; without one it reads standard input. -/
def file? : Command → Option String
  | solve file _ _ _ _ => file
  | generateRandom _ _ _ | generateHard _ => none

/-- Whether the command reads a formula. -/
def readsInput : Command → Bool
  | solve _ _ _ _ _ => true
  | generateRandom _ _ _ | generateHard _ => false

end Command
end Falsifier
