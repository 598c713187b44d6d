import NamedData.Decimal.Rounding

/-!
# Quantities for readers

Durations are shown in their two or three largest units, cut off below. Sizes
are shown in units of powers of 1024 with two places, after they have been
rounded to the 53 significant bits of a double.
-/

namespace NamedData.Text

/-- A number of at least `width` digits, filled up with zeros. -/
def padded (width n : Nat) : String :=
  let digits := toString n
  "".pushn '0' (width - digits.length) ++ digits

def hundredths (n : Nat) : String := s!"{n / 100}.{padded 2 (n % 100)}"

def inUnit (size unit : Nat) (label : String) : String :=
  s!"{hundredths (Decimal.roundQuotient (Decimal.roundTo53Bits size 1 * 100) unit)} {label}"

def size (n : Nat) : String :=
  if n < 1024 then s!"{n} B"
  else if n < 1024 * 1024 then inUnit n 1024 "KB"
  else if n < 1024 * 1024 * 1024 then inUnit n (1024 * 1024) "MB"
  else inUnit n (1024 * 1024 * 1024) "GB"

def duration (ms : Nat) : String :=
  let s := ms / 1000
  if s < 60 then s!"{s}.{padded 3 (ms % 1000)}s"
  else if s < 3600 then s!"{s / 60}m {s % 60}s"
  else if s < 86400 then s!"{s / 3600}h {s % 3600 / 60}m {s % 60}s"
  else s!"{s / 86400}d {s % 86400 / 3600}h {s % 3600 / 60}m"

end NamedData.Text
