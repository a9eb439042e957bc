import Falsifier.Fault

/-!
# Text that may break off

Output is produced piece by piece, and producing a piece can fault. What has been delivered by then
stays delivered, so the pieces are kept apart: a `Script` is their list, and `deliver` hands them
to a sink, which may have room for a limited number of bytes only.
-/

namespace Falsifier

/-- The pieces of an output in order. -/
abbrev Script := List (Except Fault String)

namespace Script

/-- Why a delivery ended early. -/
inductive Stop where
  /-- The sink took all it has room for, and there was more to write. -/
  | full
  /-- The next piece could not be produced. -/
  | fault (f : Fault)
deriving DecidableEq

/-- What reached the sink, and why no more did. -/
structure Delivery where
  arrived : String
  stop : Option Stop
deriving DecidableEq

/-- The first bytes of a text, as many as there is room for. The texts delivered here are ASCII, so
that characters are bytes. -/
def fitting (room : Nat) (text : String) : String :=
  String.ofList (text.toList.take room)

/-- Hand over the pieces to a sink that has already taken `arrived` and takes `room` more bytes; with
no `room` given it takes everything. -/
def deliverAfter (arrived : String) : Option Nat → Script → Delivery
  | _, [] => ⟨arrived, none⟩
  | _, .error f :: _ => ⟨arrived, some (.fault f)⟩
  | none, .ok text :: rest => deliverAfter (arrived ++ text) none rest
  | some room, .ok text :: rest =>
    if text.length ≤ room then deliverAfter (arrived ++ text) (some (room - text.length)) rest
    else ⟨arrived ++ fitting room text, some .full⟩

/-- Hand over the pieces to a fresh sink. -/
def deliver (room : Option Nat) (s : Script) : Delivery :=
  deliverAfter "" room s

/-- The whole text, if every piece can be produced. -/
def text (s : Script) : Except Fault String :=
  return String.join (← s.mapM id)

end Script
end Falsifier
