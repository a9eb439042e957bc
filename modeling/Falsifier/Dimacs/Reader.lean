import Falsifier.Dimacs.Blank
import Falsifier.Dimacs.Numeral
import Falsifier.Dimacs.Problem

/-!
# Reading problems

A file is read line by line. A line whose first word is `c` is a comment; it is ignored, as is a
line without words. The first other line is the header, `p KIND VARIABLES CLAUSES`, and anything
after these four words is ignored. All further lines make up the body: a sequence of numbers in
which zeros end clauses. How the body is broken into lines has no meaning, and the last clause may
leave out its zero.

Lines are judged in order, and the first that is wrong decides the error. Only then does the end of
the input count: a source may break off before its end, in which case the line it broke off in is
never judged, or end properly, in which case a header must have come and the number of clauses must
be the declared one.
-/

namespace Falsifier.Dimacs

/-- How the bytes of a source end. -/
inductive Ending where
  /-- All bytes were delivered. -/
  | complete
  /-- The source failed with this reason where more bytes were asked for. -/
  | broken (reason : String)

/-- The bytes that a source delivers, and how they end. -/
structure Input where
  bytes : List UInt8
  ending : Ending

inductive FormatError where
  | duplicateHeader
  | unknownKind
  | badVariableCount
  | badClauseCount
  | missingHeader
  | badNumber (word : String)
  | undeclared (literal : Int) (declared : Nat)
  | clauseCount (declared found : Nat)
deriving DecidableEq

namespace FormatError

def message : FormatError → String
  | duplicateHeader => "duplicate 'p' line"
  | unknownKind => "missing 'dnf' or 'cnf'"
  | badVariableCount => "invalid num_variables"
  | badClauseCount => "invalid num_clauses"
  | missingHeader => "missing 'p' line before clauses"
  | badNumber word => s!"invalid literal '{word}'"
  | undeclared l declared => s!"literal {l} exceeds the {declared} declared variables"
  | clauseCount declared found => s!"header declares {declared} clauses but {found} were read"

end FormatError

/-- Why no more text can be had from a source. -/
inductive ReadError where
  | notUtf8
  | broken (reason : String)
deriving DecidableEq

namespace ReadError

def message : ReadError → String
  | notUtf8 => "stream did not contain valid UTF-8"
  | broken reason => reason

end ReadError

/-- Why a source is not read as a problem. -/
inductive ParseError where
  | io (e : ReadError)
  | format (e : FormatError)
deriving DecidableEq

namespace ParseError

def message : ParseError → String
  | io e => "i/o error: " ++ e.message
  | format e => "format error: " ++ e.message

end ParseError

/-- Why reading ends without a problem: the source is rejected, or reporting the rejection faults. -/
inductive Failure where
  | rejected (e : ParseError)
  | fault (f : Fault)
deriving DecidableEq

/-- Reading ends with a format error. -/
def reject {α : Type} (e : FormatError) : Except Failure α :=
  .error (.rejected (.format e))

/-- What the header declares. -/
structure Header where
  kind : Kind
  varCount : Nat
  clauseCount : Nat
deriving DecidableEq

namespace Header

/-- Read the words after the `p` of a header line. -/
def ofWords (ws : List (List Char)) : Except Failure Header := do
  let some kind := ws.head?.bind fun w => Kind.ofName? (String.ofList w) | reject .unknownKind
  let some varCount := ws[1]?.bind size? | reject .badVariableCount
  let some clauseCount := ws[2]?.bind size? | reject .badClauseCount
  return ⟨kind, varCount, clauseCount⟩

end Header

/-- Read one word of the body: a literal, or none where the number is zero. -/
def entry (word : List Char) : Except Failure (Option Literal) :=
  match integer? word with
  | some x => .ok (Literal.ofDimacs x).toOption
  | none => reject (.badNumber (String.ofList word))

/-- What is reported about a literal whose variable exceeds the declared ones. The report names the
literal by its signed number. -/
def undeclared (l : Literal) (declared : Nat) : Failure :=
  match l.dimacs with
  | .ok x => .rejected (.format (.undeclared x declared))
  | .error f => .fault f

/-- What has been read so far: the header, once it has come, the clauses that zeros have ended, and
the literals since the last of these zeros. -/
structure Progress where
  header : Option Header
  closed : Array Clause
  pending : Array Literal

namespace Progress

def start : Progress := ⟨none, #[], #[]⟩

/-- A zero ends the clause. -/
def close (p : Progress) : Progress :=
  { p with closed := p.closed.push p.pending.toList, pending := #[] }

/-- Any other number is the next literal of the clause. -/
def add (p : Progress) (l : Literal) : Progress :=
  { p with pending := p.pending.push l }

/-- Read a word of the body. -/
def addWord (h : Header) (p : Progress) (word : List Char) : Except Failure Progress := do
  match ← entry word with
  | none => return p.close
  | some l => if h.varCount < l.var then throw (undeclared l h.varCount) else return p.add l

/-- The clauses so far. The last one counts without its zero if it has literals. -/
def clauses (p : Progress) : List Clause :=
  if p.pending.isEmpty then p.closed.toList else p.closed.toList ++ [p.pending.toList]

/-- Read a line, given as its words. -/
def addWords (p : Progress) : List (List Char) → Except Failure Progress
  | [] => .ok p
  | w :: ws =>
    if w = ['c'] then .ok p
    else if w = ['p'] then
      match p.header with
      | some _ => reject .duplicateHeader
      | none => return { p with header := some (← Header.ofWords ws) }
    else
      match p.header with
      | some h => (w :: ws).foldlM (addWord h) p
      | none => reject .missingHeader

/-- Read a line, given as its bytes. -/
def addLine (p : Progress) (bytes : List UInt8) : Except Failure Progress :=
  match String.fromUTF8? ⟨bytes.toArray⟩ with
  | some line => p.addWords (words line.toList)
  | none => .error (.rejected (.io .notUtf8))

/-- Judge what has been read when the source has ended properly. -/
def finish (p : Progress) : Except Failure Problem :=
  match p.header with
  | none => reject .missingHeader
  | some h =>
    let clauses := p.clauses
    if clauses.length = h.clauseCount then .ok (.ofClauses h.kind clauses)
    else reject (.clauseCount h.clauseCount clauses.length)

end Progress

/-- The lines of a source that are judged: those that end with a newline, and what follows the last
newline if the source ends there. -/
def Input.lines (i : Input) : List (List UInt8) :=
  let pieces := i.bytes.splitOn 10
  match i.ending with
  | .complete => pieces
  | .broken _ => pieces.dropLast

def Problem.parse (i : Input) : Except Failure Problem := do
  let p ← i.lines.foldlM Progress.addLine .start
  match i.ending with
  | .complete => p.finish
  | .broken reason => .error (.rejected (.io (.broken reason)))

end Falsifier.Dimacs
