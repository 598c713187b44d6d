/-!
# Meters

A counter counts events and a gauge shows a level; both hold 64 bits and wrap
around, except that a gauge is never lowered below zero. A histogram sorts
observations into buckets by their upper bounds.
-/

namespace NamedData

/-- Counts events, modulo 2^64. -/
structure Counter where
  value : UInt64 := 0
deriving DecidableEq, Repr

namespace Counter

def add (c : Counter) (n : Nat) : Counter := ⟨c.value + UInt64.ofNat n⟩

def increment (c : Counter) : Counter := c.add 1

end Counter

structure Gauge where
  value : UInt64 := 0
deriving DecidableEq, Repr

namespace Gauge

def set (n : Nat) : Gauge := ⟨UInt64.ofNat n⟩

def up (g : Gauge) : Gauge := ⟨g.value + 1⟩

/-- Lowers the level by one, but not below zero. -/
def down (g : Gauge) : Gauge := if g.value = 0 then g else ⟨g.value - 1⟩

end Gauge

/-- Observations sorted by upper bounds. An observation goes to the first
bucket whose bound it does not exceed; one below the first bound is apart. -/
structure Histogram where
  /-- The upper bounds with the numbers of observations. -/
  buckets : List (UInt64 × Nat)
  underflow : Nat := 0
  overflow : Nat := 0
  /-- The sum of all observations, modulo 2^64. -/
  sum : UInt64 := 0
  count : Nat := 0

namespace Histogram

def ofBounds (bounds : List UInt64) : Histogram := { buckets := bounds.map (·, 0) }

/-- Bounds that grow by a constant factor. Each is rounded up, and one that is
no larger than the bound before it is left out. -/
def growingBounds (factor : Float) : Nat → Float → Option UInt64 → List UInt64
  | 0, _, _ => []
  | n + 1, value, last =>
    let bound := value.ceil.toUInt64
    if last.all (· < bound) then bound :: growingBounds factor n (value * factor) (some bound)
    else growingBounds factor n (value * factor) last

/-- Buckets whose bounds grow geometrically from `low` to `high`. -/
def exponential (low high : UInt64) (buckets : Nat) : Histogram :=
  let low := max low 1
  let buckets := max buckets 2
  let high := max high (low + 1)
  let factor := (high.toFloat / low.toFloat).pow (1.0 / (Float.ofNat buckets - 1.0))
  ofBounds (growingBounds factor buckets low.toFloat none)

/-- Counts an observation in the first bucket whose bound it does not exceed. -/
def place (value : UInt64) : List (UInt64 × Nat) → Option (List (UInt64 × Nat))
  | [] => none
  | (bound, n) :: rest =>
    if value ≤ bound then some ((bound, n + 1) :: rest)
    else (place value rest).map ((bound, n) :: ·)

def observe (h : Histogram) (value : UInt64) : Histogram :=
  let h := { h with sum := h.sum + value, count := h.count + 1 }
  if h.buckets.head?.any fun (first, _) => value < first then
    { h with underflow := h.underflow + 1 }
  else
    match place value h.buckets with
    | some buckets => { h with buckets }
    | none => { h with overflow := h.overflow + 1 }

/-- The mean of the observations, or zero when there are none. -/
def average (h : Histogram) : Float :=
  if h.count = 0 then 0.0 else h.sum.toFloat / Float.ofNat h.count

end Histogram
end NamedData
