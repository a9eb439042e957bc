/-!
# Refused searches

The reasons for which a search does not start: a setting of the local search that is out of range,
a formula without clauses, or too many variables to try every assignment.
-/

namespace Falsifier

/-- What is wrong with the settings of the local search. -/
inductive ConfigError where
  | zeroIterations
  | zeroStall
deriving DecidableEq

namespace ConfigError

def message : ConfigError → String
  | zeroIterations => "max_iterations must be positive"
  | zeroStall => "max_stall must be positive"

end ConfigError

/-- Why a search does not start. -/
inductive SolveError where
  | emptyFormula
  | tooManyVariables (count limit : Nat)
  | config (e : ConfigError)
deriving DecidableEq

namespace SolveError

def message : SolveError → String
  | emptyFormula => "formula has no clauses"
  | tooManyVariables count limit =>
    s!"{count} variables is too many for exhaustive search (limit {limit})"
  | config e => "invalid configuration: " ++ e.message

end SolveError
end Falsifier
