/-!
Contract: how much is logged.

Owns:
- `Text.isBlank`, white space in the sense of Unicode, and `Text.trim`, a text without
  it at either end;
- `Severity`, the weight of a log record;
- `Verbosity`, which records are shown, and the setting that chooses it.
-/

set_option autoImplicit false

namespace LoxCalc

/-! ## White space -/

namespace Text

/-- Whether a character is white space: the controls from tab to carriage return,
the next-line control, and the separators of the categories Zs, Zl and Zp. -/
def isBlank (c : Char) : Bool :=
  let point := c.toNat
  (0x09 ≤ point && point ≤ 0x0d) || point = 0x20 || point = 0x85 || point = 0xa0
    || point = 0x1680 || (0x2000 ≤ point && point ≤ 0x200a) || point = 0x2028
    || point = 0x2029 || point = 0x202f || point = 0x205f || point = 0x3000

/-- The text without white space at its ends. -/
def trim (text : List Char) : List Char :=
  ((text.dropWhile isBlank).reverse.dropWhile isBlank).reverse

end Text

/-! ## Weights of records -/

namespace Log

/-- The weight of a log record, heaviest first. -/
inductive Severity where
  | error
  | warn
  | info
  | debug
  | trace
deriving DecidableEq, Repr

namespace Severity

/-- The place of a severity in the order from heavy to light. -/
def rank : Severity → Nat
  | .error => 1
  | .warn => 2
  | .info => 3
  | .debug => 4
  | .trace => 5

def name : Severity → String
  | .error => "ERROR"
  | .warn => "WARN"
  | .info => "INFO"
  | .debug => "DEBUG"
  | .trace => "TRACE"

/-- The name of a severity, padded to equal width. -/
def label : Severity → String
  | .error => "ERROR"
  | .warn => "WARN "
  | .info => "INFO "
  | .debug => "DEBUG"
  | .trace => "TRACE"

/-- The terminal colour of a severity: red, yellow, green, blue, magenta. -/
def colour : Severity → String
  | .error => "31"
  | .warn => "33"
  | .info => "32"
  | .debug => "34"
  | .trace => "35"

end Severity

/-- Which records are shown: none, or all of at least some weight. -/
inductive Verbosity where
  | off
  | upTo (lightest : Severity)
deriving DecidableEq, Repr

namespace Verbosity

def admits : Verbosity → Severity → Bool
  | .off, _ => false
  | .upTo lightest, s => s.rank ≤ lightest.rank

def name : Verbosity → String
  | .off => "OFF"
  | .upTo lightest => lightest.name

def all : List Verbosity :=
  [.off, .upTo .error, .upTo .warn, .upTo .info, .upTo .debug, .upTo .trace]

/-- Without a usable setting, warnings and errors are shown. -/
def standard : Verbosity := .upTo .warn

/-- The verbosity of a name, in any mix of ASCII upper and lower case and with
white space around it. -/
def ofText? (text : String) : Option Verbosity :=
  let word := (Text.trim text.toList).map Char.toUpper
  all.find? (fun v => v.name.toList = word)

/-- The verbosity that a setting chooses, given as bytes. A setting that is
missing, not UTF-8 or no name of a verbosity chooses the standard one. -/
def ofSetting (setting : Option ByteArray) : Verbosity :=
  ((setting.bind String.fromUTF8?).bind ofText?).getD standard

end Verbosity

end Log

end LoxCalc
