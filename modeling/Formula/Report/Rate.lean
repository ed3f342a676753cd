import Formula.Report.Rows

/-!
# Rates

A line is evaluated in one or more samples, and each sample is timed. The rate of the line is the
median of the rates of its samples, written as a whole number.
-/

namespace Formula.Report

/-- A row with the rate of its evaluations. -/
structure TimedRow where
  row : Row
  rate : Double

/-- A number of nanoseconds in seconds. -/
def seconds (nanoseconds : Nat) : Double := (Double.ofNat nanoseconds).div (.ofNat 1000000000)

/-- The rate of one sample. -/
def sampleRate (o : Options) (nanoseconds : Nat) : Except Statistic.RateError Double :=
  Statistic.perSecond o.trials (seconds nanoseconds)

/-- The median of the rates; NaN if there is none. -/
def medianRate (rates : List Double) : Double :=
  (Statistic.percentile rates (Double.one.div (.ofNat 2))).toOption.getD .nan

/-- The nearest integer; a half goes to the even one, and the sign of a zero is written. -/
def wholeText : Double → String
  | .nan => "nan"
  | .num neg mag =>
    (if neg then "-" else "")
      ++ (if mag = .top then "inf"
          else toString (Magnitude.roundHalfEven mag.units Magnitude.unitsPerOne))

/-- The lines of a row with its rate. -/
def TimedRow.lines (t : TimedRow) : List String := t.row.lines (wholeText t.rate)

end Formula.Report
