import DayWeave.Time

/-!
Instants of the server.

A `DateTime` is an instant in UTC between the years `-262143` and `262142`, in nanoseconds since
1970. The additions of the source stop the program when they leave this range, so they are
partial. Leap seconds, which no clock of the server produces, are left out.
-/

namespace DayWeave

open Duration (second)

/-- An instant in UTC. -/
structure DateTime where
  nanos : Int
  min_le : -8334601228800 * second ≤ nanos
  lt_max : nanos < 8210266876800 * second
deriving DecidableEq

namespace DateTime

variable {a b : DateTime}

@[ext] lemma ext (h : a.nanos = b.nanos) : a = b := by
  cases a; cases b; cases h; rfl

instance : LinearOrder DateTime := LinearOrder.lift' nanos fun _ _ => ext

/-- The instant with the given number of nanoseconds, if it is representable. -/
def ofNanos (n : Int) : Option DateTime :=
  if h : -8334601228800 * second ≤ n ∧ n < 8210266876800 * second then
    some ⟨n, h.1, h.2⟩
  else none

/-- The time from `b` to `a`. -/
def signedDurationSince (a b : DateTime) : Duration := a.nanos - b.nanos

/-- The instant `d` later, if it is representable. -/
def checkedAddSigned (t : DateTime) (d : Duration) : Option DateTime := ofNanos (t.nanos + d)

/-- Whether the instant is a whole number of microseconds, the precision of the database. -/
def hasPostgresTimestampPrecision (t : DateTime) : Bool := t.nanos % 1000 == 0

/-- The instant cut down to whole microseconds. -/
def truncateToPostgresTimestampPrecision (t : DateTime) : DateTime where
  nanos := t.nanos / 1000 * 1000
  min_le := by
    have := t.min_le
    simp only [second] at this ⊢
    omega
  lt_max := by
    have := t.lt_max
    simp only [second] at this ⊢
    omega

/-- The instant a number of seconds after 1970. -/
def atSecond (n : ℕ) : DateTime where
  nanos := (n % 8210266876800 : ℕ) * second
  min_le := by simp only [second]; omega
  lt_max := by simp only [second]; omega

end DateTime

end DayWeave
