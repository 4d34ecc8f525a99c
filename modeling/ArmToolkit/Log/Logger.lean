import ArmToolkit.Log.Message

/-!
# `Log.Logger` — which messages go where

Messages go to sinks: the console, a file, or receivers with numbers. A receiver may be registered more than once, and
then gets every message as often.

## Contents
- **State.** `Logger`: the level that was asked for, the one that is in effect, the channels that are off, and the sinks in
  the order of registration.
- **Filtering.** Without a sink no level is in effect; `refresh` brings the level in effect up to date.
- **Sinks.** `register` adds a sink, `unregister` removes its first registration, and `setConsole` switches the
  console.
-/

namespace ArmToolkit.Log

/-- Where messages go. -/
inductive Sink
  | console
  | file
  | receiver (number : Nat)
  deriving DecidableEq

/-- **What the log is set to.** -/
structure Logger where
  requested : Level := .trace
  effective : Level := .none
  disabled : List Channel := []
  sinks : List Sink := []
  console : Bool := false
  consoleStamps : Bool := false
  deriving DecidableEq

namespace Logger

variable (l : Logger)

/-! ## Filtering -/

/-- **The log with the level in effect** brought up to date: the one that was asked for, if there is a sink. -/
def refresh : Logger := { l with effective := if l.sinks.isEmpty then .none else l.requested }

/-- Whether messages of a level and a channel pass. -/
def visible (level : Level) (channel : Channel) : Bool :=
  l.effective.passes level && !l.disabled.contains channel

/-- **The sinks that get a message**, once for every registration. -/
def receivers (m : Message) : List Sink :=
  if l.visible m.category.level m.category.channel then l.sinks else []

/-- Asks for a level. -/
def setLevel (level : Level) : Logger := refresh { l with requested := level }

/-- Switches a channel on or off. -/
def setChannel (channel : Channel) (enabled : Bool) : Logger :=
  let others := l.disabled.filter (· != channel)
  { l with disabled := if enabled then others else channel :: others }

/-! ## Sinks -/

/-- Registers a sink behind the others. -/
def register (s : Sink) : Logger := refresh { l with sinks := l.sinks ++ [s] }

/-- Takes back the first registration of a sink, if it has one. -/
def unregister (s : Sink) : Logger :=
  if l.sinks.contains s then refresh { l with sinks := l.sinks.erase s } else l

/-- **Switches the console.** It is registered exactly while it is on. -/
def setConsole (enabled stamps : Bool) : Logger :=
  let l := { l with consoleStamps := stamps }
  if l.console = enabled then l
  else
    let l := { l with console := enabled }
    if enabled then l.register .console else l.unregister .console

end Logger

end ArmToolkit.Log
