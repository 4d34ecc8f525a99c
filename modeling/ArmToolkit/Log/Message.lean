import ArmToolkit.Log.Level

/-!
# `Log.Message` — what the toolkit reports while it works

A `Message` carries the name of the operation that reports it. Operations return the messages they report, in order;
where messages go, and which of them, is decided by the sinks that are registered.
-/

namespace ArmToolkit.Log

/-- **One message**, with the name of the operation that reports it, if it is named. -/
structure Message where
  category : Category
  operation : Option String
  text : String
  deriving DecidableEq

/-- A message of an operation whose name ends at its first NUL. -/
def Message.named (category : Category) (operation text : String) : Message :=
  { category, operation := some (Text.untilNul operation), text }

/-- A message of an operation in the default colour of its level. -/
def Message.by (channel : Channel) (level : Level) (operation text : String) : Message :=
  { category := { channel, level }, operation := some operation, text }

end ArmToolkit.Log
