import HydraClient.Moment
import HydraClient.Text.Quoted

/-! # Faults of YAML text

A text breaks the rules of the notation, or one of its scalars has a tag that its text does not fit.
-/
namespace HydraClient.Yaml

inductive Fault where
  | malformed
  /-- An escape beyond the last character. -/
  | beyondUnicode (code : Nat)
  /-- Half of a surrogate pair. No text holds one here, so reading stops at it. -/
  | surrogate (code : Nat)
  | truthUnknown (word : String)
  /-- A number without any character after its sign. -/
  | numberMissing
  | intUnreadable (base : Nat) (text : String)
  | intTooLong (digits : Nat)
  | floatUnreadable (text : String)
  /-- A place of a number in sixties that is worth more than any float. -/
  | placeTooLarge
  | momentUnreadable
  /-- A mapping in the place of a moment. -/
  | momentNotText
  | calendar (fault : CalendarFault)
  deriving DecidableEq, Repr

namespace Fault

def calendarText : CalendarFault → String
  | .year y => s!"year {y} is out of range"
  | .month => "month must be in 1..12"
  | .day => "day is out of range for month"
  | .hour => "hour must be in 0..23"
  | .minute => "minute must be in 0..59"
  | .second => "second must be in 0..59"
  | .offset m =>
    "offset must be a timedelta strictly between -timedelta(hours=24) and timedelta(hours=24), " ++
      s!"not {Moment.lengthText m}."

def text : Fault → String
  | malformed => "malformed"
  | beyondUnicode code =>
    if code < 2147483648 then "chr() arg not in range(0x110000)"
    else "Python int too large to convert to C int"
  | surrogate code => s!"half of a surrogate pair: {code}"
  | truthUnknown word => Text.quoted word
  | numberMissing => "string index out of range"
  | intUnreadable base s =>
    s!"invalid literal for int() with base {base}: " ++
      String.ofList ((Text.quoted s).toList.take 200)
  | intTooLong n =>
    s!"Exceeds the limit (4300 digits) for integer string conversion: value has {n} digits; " ++
      "use sys.set_int_max_str_digits() to increase the limit"
  | floatUnreadable s => s!"could not convert string to float: {Text.quoted s}"
  | placeTooLarge => "int too large to convert to float"
  | momentUnreadable => "'NoneType' object has no attribute 'groupdict'"
  | momentNotText => "expected string or bytes-like object, got 'list'"
  | calendar f => calendarText f

end Fault
end HydraClient.Yaml
