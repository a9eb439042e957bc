import Falsifier.Assignment
import Falsifier.Formula.Display
import Falsifier.Message
import Falsifier.Model
import Falsifier.SolveError
import Falsifier.Dimacs.Reader
import Falsifier.Dimacs.Writer
import Falsifier.Exhaustive
import Falsifier.Sampling.ChaCha
import Falsifier.Sampling.Formula
import Falsifier.Sampling.Listed
import Falsifier.Search.Run
import Falsifier.Hard.Family
import Falsifier.Main
import Falsifier.Proofs.Evaluation
import Falsifier.Proofs.Exhaustive.Exact
import Falsifier.Proofs.Search.Landscape
import Falsifier.Proofs.Search.Checked
import Falsifier.Proofs.Search.Invariant
import Falsifier.Proofs.Search.Reference
import Falsifier.Proofs.Search.Soundness
import Falsifier.Proofs.Exhaustive.Checked
import Falsifier.Proofs.Failing
import Falsifier.Proofs.Literal
import Falsifier.Proofs.Script
import Falsifier.Proofs.Negation
import Falsifier.Proofs.Dimacs.Numeral
import Falsifier.Proofs.Dimacs.Text
import Falsifier.Proofs.Dimacs.Layout
import Falsifier.Proofs.Dimacs.Grammar
import Falsifier.Proofs.Dimacs.Range
import Falsifier.Proofs.Dimacs.RoundTrip
import Falsifier.Proofs.Exhaustive.Satisfying
import Falsifier.Proofs.Shown
import Falsifier.Proofs.Agreement
import Falsifier.Proofs.Search.Budget
import Falsifier.Proofs.Search.LargerBudget
import Falsifier.Proofs.Search.GivingUp
import Falsifier.Proofs.Search.Rearrangement
import Falsifier.Proofs.Search.Renaming
import Falsifier.Proofs.Search.Stall
import Falsifier.Proofs.Satisfaction
import Falsifier.Proofs.Hard.Numbering
import Falsifier.Proofs.Hard.Sizes
import Falsifier.Proofs.Hard.Subsets
import Falsifier.Proofs.Hard.Pigeonhole
import Falsifier.Proofs.Hard.Parity
import Falsifier.Proofs.Hard.Ordering
import Falsifier.Proofs.Hard.Demands
import Falsifier.Proofs.Dimacs.Ending
import Falsifier.Proofs.PartialAssignments
import Falsifier.Proofs.Sampling.Position
import Falsifier.Proofs.Sampling.Formula
import Falsifier.Proofs.Search.Draws
import Falsifier.Proofs.Display
import Falsifier.Proofs.Hard.Combinations
import Falsifier.Proofs.Hard.Counts
import Falsifier.Proofs.Hard.Tables
import Falsifier.Proofs.Hard.Cells
import Falsifier.Proofs.Hard.Shape
