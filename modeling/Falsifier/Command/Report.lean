import Falsifier.Command.Basic
import Falsifier.Dimacs.Reader
import Falsifier.Dimacs.Writer
import Falsifier.Exhaustive
import Falsifier.Hard.Family
import Falsifier.Sampling.ChaCha
import Falsifier.Sampling.Formula
import Falsifier.Search.Run

/-!
# Running a command

A command is a function from its input to a report: what is printed, what is logged, and with which
code the program ends. The codes tell how a search went (0 falsified, 1 tautology, 2 unknown) and
set errors (255) and faults (101) apart.
-/

namespace Falsifier.Command

open Sampling

inductive Error where
  | parse (e : Dimacs.ParseError)
  | solve (e : SolveError)
  | notNumber (option word : String)
  | noInstance (index : Nat)
deriving DecidableEq

namespace Error

def message : Error → String
  | parse e => e.message
  | solve e => e.message
  | notNumber option word => s!"--{option} expects a number, got '{word}'"
  | noInstance index =>
    s!"no hard instance {index} (there are {HardFamily.catalogue.length})"

end Error

/-- How a command goes wrong: by an error of its own, or by a fault on the way. -/
inductive Trouble where
  | error (e : Error)
  | fault (f : Fault)

/-- What a command that goes well prints and logs, and its code. -/
structure Result where
  code : Nat
  output : Script
  messages : Array Message

/-- What the program prints and logs, and its code. -/
structure Report where
  code : Nat
  output : String
  errors : String
  messages : Array Message

namespace Report

/-- The report of a fault, after what had been printed and logged before it. -/
def ofFault (f : Fault) (output : String) (messages : Array Message) : Report :=
  ⟨101, output, "fault: " ++ f.message ++ "\n", messages⟩

def ofResult : Except Trouble Result → Report
  | .error (.error e) => ⟨255, "", "error: " ++ e.message ++ "\n", #[]⟩
  | .error (.fault f) => ofFault f "" #[]
  | .ok r =>
    match r.output.deliver none with
    | ⟨output, some (.fault f)⟩ => ofFault f output r.messages
    | ⟨output, _⟩ => ⟨r.code, output, "", r.messages⟩

end Report

/-- Go on after a computation that may end with an error of the given form. -/
def orError {ε α : Type} (form : ε → Error) : Except ε α → Except Trouble α :=
  Except.mapError fun e => .error (form e)

/-- Go on after a computation that may fault. -/
def orFault {α : Type} : Except Fault α → Except Trouble α :=
  Except.mapError .fault

def readProblem (input : Dimacs.Input) : Except Trouble Dimacs.Problem :=
  (Dimacs.Problem.parse input).mapError fun
    | .rejected e => .error (.parse e)
    | .fault f => .fault f

/-- Read the number given for an option. -/
def number (option word : String) : Except Trouble Nat :=
  match Dimacs.size? word.toList with
  | some n => .ok n
  | none => .error (.error (.notNumber option word))

/-- Read the number given for an option, or take another when none is given. -/
def numberOr (other : Nat) (option : String) : Option String → Except Trouble Nat
  | some word => number option word
  | none => .ok other

/-- The source of a seed. -/
def sourceOf (seed : Nat) : Source ChaCha :=
  .fresh (.ofSeed (UInt64.ofNat seed))

/-- Say that the formula is falsified by a model. -/
def falsifiedScript (m : Model) : Script :=
  .ok "falsified: " :: m.script ++ [.ok "\n"]

def solveExhaustively (f : Dnf) : Except Trouble Result := do
  let verdict ← orError .solve (Exhaustive.search f)
  match verdict with
  | .falsified m _ => return ⟨0, falsifiedScript m, #[verdict.message]⟩
  | .tautology _ => return ⟨1, [.ok "tautology\n"], #[verdict.message]⟩

def solveLocally (f : Dnf) (config : Search.Config) (seed : Nat) : Except Trouble Result := do
  let solver ← orError .solve (Search.Solver.start f config (sourceOf seed))
  match solver.solveLogged #[] with
  | (messages, .falsified m, _) => return ⟨0, falsifiedScript m, messages⟩
  | (messages, .budgetExhausted, _) =>
    return ⟨2, [.ok s!"unknown: nothing found in {config.maxIterations} iterations\n"], messages⟩

/-- Run a command on its input. The seed is used when the command gives none. -/
def run (input : Dimacs.Input) (entropy : Nat) : Command → Except Trouble Result
  | solve _ exhaustive maxIterations maxStall seed => do
    let f := (← readProblem input).toDnf
    if exhaustive then solveExhaustively f
    else
      let standard := Search.Config.standard
      let iterations ← numberOr standard.maxIterations "max-iterations" maxIterations
      let stall ← numberOr standard.maxStall "max-stall" maxStall
      solveLocally f ⟨iterations, stall⟩ (← numberOr entropy "seed" seed)
  | generateRandom vars clauses seed => do
    let n ← number "variables" vars
    let count ← number "clauses" clauses
    let source := sourceOf (← numberOr entropy "seed" seed)
    let (f, _) ← orFault (Sampling.dnf n count source)
    return ⟨0, Dimacs.Problem.script (.dnf f), #[]⟩
  | generateHard index => do
    let i ← number "index" index
    let some family := HardFamily.catalogue[i]? | throw (.error (.noInstance i))
    let c ← orFault family.build
    return ⟨0, Dimacs.Problem.script (.dnf c.negate), #[⟨.debug, "negating " ++ family.display⟩]⟩

/-- The report of a command on its input. -/
def report (input : Dimacs.Input) (entropy : Nat) (c : Command) : Report :=
  .ofResult (c.run input entropy)

/-- The report of a call that names no command to run. -/
def refusalReport : Refusal → Report
  | .help => ⟨0, "", usage, #[]⟩
  | .version path => ⟨0, versionText path, "", #[]⟩
  | .misuse => ⟨1, "", usage, #[]⟩

end Falsifier.Command
