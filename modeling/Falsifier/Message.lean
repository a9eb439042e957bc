/-!
# Log messages

What a search reports about its progress, besides its result. A message has a level, and a reader
who asks for `debug` gets the messages of that level only, while `trace` gives all of them.
-/

namespace Falsifier

/-- How detailed a message is. -/
inductive Level where
  | debug
  | trace
deriving DecidableEq

namespace Level

/-- The name that stands in front of a message. -/
def name : Level → String
  | debug => "DEBUG"
  | trace => "TRACE"

/-- The level with this name, as a reader asks for it. -/
def ofName? : String → Option Level
  | "debug" => some debug
  | "trace" => some trace
  | _ => none

/-- Whether a reader who asked for the first level gets messages of the second. -/
def shows : Level → Level → Bool
  | trace, _ => true
  | debug, l => l == debug

end Level

/-- One reported event. -/
structure Message where
  level : Level
  text : String

namespace Message

/-- The message as one line, without its end. -/
def line (m : Message) : String :=
  m.level.name ++ " " ++ m.text

end Message
end Falsifier
