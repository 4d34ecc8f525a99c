import ArmToolkit.Failure
import ArmToolkit.Text.Ascii

/-!
# `Settings.Store` — settings as texts in sections

## Contents
- **Names.** `SettingKey` is a section (`group`) and a key in it. A NUL ends either: `SettingKey.named`.
- **The store.** `Store` maps the name of a setting to a text. `get?`, `set`, `erase`, `clearSection`, and
  `list`, which is sorted by key.
- **Values.** Integers and switches are read from texts and written as texts.
- **Overrides.** `Store.override` takes a setting written as section, slash, key, equals sign and value.
-/

namespace ArmToolkit

open Text

/-- The name of a setting. -/
structure SettingKey where
  group : String
  key : String
  deriving DecidableEq

/-- **The setting that two texts name**: each of them up to its first NUL. -/
def SettingKey.named (group key : String) : SettingKey := ⟨untilNul group, untilNul key⟩

/-- **A store of settings.** -/
structure Store where
  entries : List (SettingKey × String) := []
  deriving DecidableEq

namespace Store

variable (s : Store)

/-! ## The store -/

/-- The text of a setting. -/
def get? (k : SettingKey) : Option String := s.entries.lookup k

/-- Whether there is a setting. -/
def contains (k : SettingKey) : Bool := (s.get? k).isSome

/-- The store without a setting. -/
def erase (k : SettingKey) : Store := ⟨s.entries.filter fun e => e.1 != k⟩

/-- **The store with another text for a setting.** -/
def set (k : SettingKey) (text : String) : Store := ⟨(k, text) :: (s.erase k).entries⟩

/-- The store without a section. -/
def clearSection (name : String) : Store := ⟨s.entries.filter fun e => e.1.group != name⟩

/-- Puts a setting in front of the first one whose key is greater. -/
def insertSorted (e : String × String) : List (String × String) → List (String × String)
  | [] => [e]
  | f :: fs => if e.1 < f.1 then e :: f :: fs else f :: insertSorted e fs

/-- **The keys and texts of a section**, sorted by key. -/
def list (name : String) : List (String × String) :=
  (s.entries.filter fun e => e.1.group == name).foldr (fun e l => insertSorted (e.1.key, e.2) l) []

/-! ## Values -/

/-- The store with the text up to its first NUL for a setting. -/
def setText (k : SettingKey) (text : String) : Store := s.set k (untilNul text)

/-- The text of a setting, or else the default up to its first NUL. -/
def textOr (k : SettingKey) (default : String) : String := (s.get? k).getD (untilNul default)

/-- A setting as a signed 32-bit number. -/
def int? (k : SettingKey) : Option Int := (s.get? k).bind (IntKind.s32.read? 10)

/-- A setting as an unsigned 32-bit number. -/
def nat? (k : SettingKey) : Option Nat := ((s.get? k).bind (IntKind.u32.read? 10)).map Int.toNat

/-- A setting as a switch. -/
def switch? (k : SettingKey) : Option Bool := (s.get? k).bind Text.switch?

/-- The store with a number for a setting. -/
def setInt (k : SettingKey) (z : Int) : Store := s.set k (decInt z)

/-- The store with an unsigned number for a setting. -/
def setNat (k : SettingKey) (n : Nat) : Store := s.set k (dec n)

/-- The store with a switch for a setting. -/
def setSwitch (k : SettingKey) (b : Bool) : Store := s.set k (switchWord b)

/-- Why a store cannot be saved: it is kept in memory alone. -/
def saveRefusal : String := "Memory settings can not be saved."

/-! ## Overrides -/

/-- What is wrong with an override. -/
inductive OverrideError
  | malformed (text : String)
  | missing (text : String)
  deriving DecidableEq

/-- The wording of an override error. -/
def OverrideError.message : OverrideError → String
  | malformed t => "Malformed setting override '" ++ t ++ "', expected Section/Key=Value."
  | missing t => "Missing section or key in setting override '" ++ t ++ "'."

/-- **The store with the setting that a text gives.** The first slash has to come before the first equals sign. The
    value keeps its NULs, while those in the section and the key end them. -/
def override (text : String) : Except OverrideError Store :=
  match text.toList.span (· != '=') with
  | (_, []) => .error (.malformed text)
  | (front, _ :: value) =>
    match front.span (· != '/') with
    | (_, []) => .error (.malformed text)
    | (name, _ :: key) =>
      let trimmed (cs : List Char) : String := String.ofList (stripChars cs)
      let group := trimmed name
      let key := trimmed key
      if group = "" ∨ key = "" then .error (.missing text) else .ok (s.set (.named group key) (trimmed value))

end Store

end ArmToolkit
