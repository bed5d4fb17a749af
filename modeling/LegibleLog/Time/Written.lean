import LegibleLog.Number.Decimal
import LegibleLog.Time.Epoch
import LegibleLog.Time.Internet

/-!
# Written times

`Timestamp.ofText? year cs` is the timestamp that a text stands for: the notations of the internet first, then the
patterns of common logs, then a numeral as Unix time.  A text without a year lies in `year`.
-/

namespace LegibleLog.Time

/-- Date, time and offset without a blank. -/
def compactPattern : Pattern := Pattern.ymd '-' ++ [.literal 'T'] ++ Pattern.hms ++ [.fraction, .offset]

/-- The patterns with an offset, in the order in which they are tried. -/
def zonedPatterns : List Pattern :=
  [ Pattern.ymd '-' ++ [.blank] ++ Pattern.hms ++ [.fraction, .blank, .offset],
    compactPattern,
    [.weekdayName, .blank, .monthName, .blank, .day, .blank] ++ Pattern.hms ++ [.blank, .offset, .blank, .year],
    [.day, .blank, .monthName, .blank, .yearOfCentury, .blank, .hour, .literal ':', .minute, .blank, .offset] ]

/-- The patterns without an offset, in the order in which they are tried. -/
def naivePatterns : List Pattern :=
  [ Pattern.ymd '-' ++ [.blank] ++ Pattern.hms ++ [.fraction],
    Pattern.ymd '-' ++ [.literal 'T'] ++ Pattern.hms ++ [.fraction],
    Pattern.ymd '/' ++ [.blank] ++ Pattern.hms ++ [.fraction],
    [.weekdayName, .blank, .monthName, .blank, .day, .blank] ++ Pattern.hms ++ [.blank, .year] ]

/-- The pattern of a system log's time, which has no year of its own. -/
def stampPattern : Pattern := [.monthName, .blank, .day, .blank] ++ Pattern.hms ++ [.fraction]

/-- The timestamp of a system log's time in the given year. -/
def stamp? (year : Int) (cs : List Char) : Option Timestamp :=
  (stampPattern.read? (Text.trimStart cs)).bind fun p =>
    { p with year := some year, offset := some 0 }.toTimestamp?

/-- The timestamp of a numeral. -/
def numeral? (cs : List Char) : Option Timestamp :=
  ((Decimal.parse? cs).bind Decimal.toBinary64?).bind Timestamp.ofEpoch?

/-- The timestamp that a text without blanks at its ends stands for. -/
def Timestamp.ofTrimmed? (year : Int) (cs : List Char) : Option Timestamp :=
  rfc3339? cs <|> rfc2822? cs <|> zonedPatterns.findSome? (·.zoned? cs) <|>
    naivePatterns.findSome? (·.naive? cs) <|> stamp? year cs <|> numeral? cs

/-- The timestamp that a text stands for. -/
def Timestamp.ofText? (year : Int) (text : String) : Option Timestamp :=
  match Text.trim text.toList with
  | [] => none
  | cs => Timestamp.ofTrimmed? year cs

end LegibleLog.Time
