import ArmToolkit.Text.Ascii

/-!
# `Log.Level` — levels, channels and colours of log messages

## Contents
- **Levels.** `Level`, from `none` (nothing is logged) to `trace` (everything is), in order.
- **Channels.** `Channel` is the part of the toolkit that a message comes from.
- **Colours.** `Color` is a number; the lowest ones have names, and every level has a colour of its own.
- **Categories.** `pack` puts the three into one number of 32 bits, and `unpack?` takes them out again. The number has
  five places for the colour, so what is unpacked has the colour cut to its lowest bits.
-/

namespace ArmToolkit.Log

/-! ## Levels -/

/-- The level of a message, from grave to chatty. The level `none` is never a message's own. -/
inductive Level
  | none | error | warning | info | verbose | dev | debug | trace
  deriving DecidableEq, Inhabited

namespace Level

/-- The levels in order. -/
def all : List Level := [none, error, warning, info, verbose, dev, debug, trace]

/-- The place of a level in the order. -/
def rank : Level → Nat
  | none => 0 | error => 1 | warning => 2 | info => 3 | verbose => 4 | dev => 5 | debug => 6 | trace => 7

/-- The name of a level. -/
def name : Level → String
  | none => "None" | error => "Error" | warning => "Warning" | info => "Info" | verbose => "Verbose"
  | dev => "Dev" | debug => "Debug" | trace => "Trace"

/-- The letter of a level in front of messages. -/
def letter : Level → String
  | none => "X" | error => "E" | warning => "W" | info => "I" | verbose => "V" | dev => "D" | debug => "B"
  | trace => "T"

/-- The level that a name stands for, in any case. A NUL ends the name. -/
def ofName? (s : String) : Option Level := all.find? fun l => Text.equalNoCase l.name (Text.untilNul s)

/-- Whether messages of level `l` pass a filter at this level. -/
def passes (filter l : Level) : Bool := decide (l.rank ≤ filter.rank)

end Level

/-! ## Channels -/

/-- The part of the toolkit that a message comes from. -/
inductive Channel
  | a64Asm | a64Decoder | a64Sim | fixture | host | log | macroAsm | settings | t32
  deriving DecidableEq, Inhabited

namespace Channel

/-- The channels in order. -/
def all : List Channel := [a64Asm, a64Decoder, a64Sim, fixture, host, log, macroAsm, settings, t32]

/-- The place of a channel in the order. -/
def rank : Channel → Nat
  | a64Asm => 0 | a64Decoder => 1 | a64Sim => 2 | fixture => 3 | host => 4 | log => 5 | macroAsm => 6
  | settings => 7 | t32 => 8

/-- The name of a channel. -/
def name : Channel → String
  | a64Asm => "A64Asm" | a64Decoder => "A64Decoder" | a64Sim => "A64Sim" | fixture => "Fixture" | host => "Host"
  | log => "Log" | macroAsm => "MacroAsm" | settings => "Settings" | t32 => "T32"

end Channel

/-! ## Colours -/

/-- **The colour of a message**, by its number. Not every number has a name. -/
structure Color where
  number : BitVec 32
  deriving DecidableEq, Inhabited

namespace Color

/-- No colour in particular. -/
def default : Color := ⟨0⟩

/-- Green. -/
def green : Color := ⟨3⟩

/-- Blue. -/
def blue : Color := ⟨4⟩

/-- White. -/
def white : Color := ⟨9⟩

/-- Bright red. -/
def strongRed : Color := ⟨11⟩

/-- Bright green. -/
def strongGreen : Color := ⟨12⟩

/-- Bright yellow. -/
def strongYellow : Color := ⟨17⟩

/-- Bright white. -/
def strongWhite : Color := ⟨18⟩

/-- The colour of the lowest five bits, which is what a packed number has room for. -/
def narrowed (c : Color) : Color := ⟨BitVec.ofNat 32 (c.number.toNat % 32)⟩

end Color

/-- The colour that messages of a level have by default. -/
def Level.color : Level → Color
  | none => .default | error => .strongRed | warning => .strongYellow | info => .strongWhite
  | verbose => .strongGreen | dev => .white | debug => .green | trace => .blue

/-! ## Categories -/

/-- A channel, a level and a colour. -/
structure Category where
  channel : Channel
  level : Level
  color : Color := .default
  deriving DecidableEq

namespace Category

/-- **A category as one number**: the level in the lowest three bits, the channel in the seven above, and the colour
    above these, as far as there are bits. -/
def pack (c : Category) : BitVec 32 :=
  BitVec.ofNat 32 (c.color.number.toNat * 1024 + c.channel.rank * 8 + c.level.rank)

/-- The category that a number stands for; nothing if it names no channel. -/
def unpack? (n : BitVec 32) : Option Category := do
  let channel ← Channel.all[n.toNat / 8 % 128]?
  let level ← Level.all[n.toNat % 8]?
  pure { channel, level, color := ⟨BitVec.ofNat 32 (n.toNat / 1024 % 32)⟩ }

/-- The category as it is unpacked. -/
def narrowed (c : Category) : Category := { c with color := c.color.narrowed }

/-- **A packed category is unpacked** with its channel and its level, and with what is kept of its colour. -/
theorem unpack?_pack (c : Category) : unpack? c.pack = some c.narrowed := by
  obtain ⟨channel, level, ⟨color⟩⟩ := c
  have low : channel.rank < 16 ∧ level.rank < 8 := by cases channel <;> cases level <;> decide
  have total : (pack ⟨channel, level, ⟨color⟩⟩).toNat =
      (color.toNat * 1024 + channel.rank * 8 + level.rank) % 4294967296 := rfl
  rw [unpack?, total,
    show (color.toNat * 1024 + channel.rank * 8 + level.rank) % 4294967296 / 8 % 128 = channel.rank by omega,
    show (color.toNat * 1024 + channel.rank * 8 + level.rank) % 4294967296 % 8 = level.rank by omega,
    show (color.toNat * 1024 + channel.rank * 8 + level.rank) % 4294967296 / 1024 % 32 = color.toNat % 32 by omega]
  cases channel <;> cases level <;> rfl

end Category

end ArmToolkit.Log
