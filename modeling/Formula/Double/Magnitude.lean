/-!
# Magnitudes of doubles

The non-negative doubles form one increasing list, from zero over the subnormals and the normals
up to infinity. A magnitude is a place in that list. The place is at the same time the binary64
encoding without its sign bit, so nothing has to be packed or unpacked.

## How it works

Places come in blocks of `2 ^ 52`. In block 0 and block 1 neighbours are one *unit* apart, the unit
being `2 ^ (-1074)`; in each later block they are twice as far apart as in the block before. So a
place is `t * 2 ^ 52 + s` with a *shift* `t` and a *significand* `s ≤ 2 ^ 53`, and it stands for
`s * 2 ^ t` units. Both ways to write a block boundary give the same place and the same value, which
is why a rounding that carries into the next block needs no case of its own.

Infinity is the last place. Its formal value is `2 ^ 1024`, the next point of the grid; the nearest
place is then infinity exactly from `2 ^ 1024 - 2 ^ 970` on.
-/

namespace Formula

/-- A place in the increasing list of all non-negative doubles. -/
structure Magnitude where
  place : Nat
  place_le : place ≤ 0x7ff0000000000000
  deriving DecidableEq

namespace Magnitude

/-! ## The list of places -/

def zero : Magnitude := ⟨0, by decide⟩

/-- The last place, infinity. -/
def top : Magnitude := ⟨0x7ff0000000000000, by decide⟩

/-- The place with the given number, or the last one if there is none. -/
def ofPlace (p : Nat) : Magnitude := ⟨min p 0x7ff0000000000000, Nat.min_le_right _ _⟩

theorem ofPlace_place (m : Magnitude) : ofPlace m.place = m := by
  cases m with
  | mk p hp => simp [ofPlace, Nat.min_eq_left hp]

/-- How often the distance between neighbours has doubled. -/
def shift (m : Magnitude) : Nat := m.place / 0x10000000000000 - 1

/-- The place within the blocks of its distance. -/
def significand (m : Magnitude) : Nat := m.place - m.shift * 0x10000000000000

/-- The exact value in units of `2 ^ (-1074)`. -/
def units (m : Magnitude) : Nat := m.significand <<< m.shift

/-- One, in units. -/
def unitsPerOne : Nat := 1 <<< 1074

/-! ## Rounding to the nearest place -/

/-- The integer nearest to `num / den`; a half goes to the even neighbour. -/
def roundHalfEven (num den : Nat) : Nat :=
  let q := num / den
  let r := num % den
  if 2 * r < den then q
  else if den < 2 * r then q + 1
  else if q % 2 = 0 then q else q + 1

/--
The place nearest to `num / den` units; a half goes to the even place.

The shift is the one under which the integer part of the quotient has at most 53 binary digits.
-/
def ofRatio (num den : Nat) : Magnitude :=
  let t := Nat.log2 (num / den) - 52
  ofPlace (t * 0x10000000000000 + roundHalfEven num (den <<< t))

/-- The place nearest to an integer. -/
def ofNat (n : Nat) : Magnitude := ofRatio (n * unitsPerOne) 1

/-! ## Square roots -/

/-- The integer part of the square root of an `n` below `4 ^ k`. -/
def intSqrt (n : Nat) : Nat → Nat
  | 0 => 0
  | k + 1 =>
    let r := 2 * intSqrt (n / 4) k
    if (r + 1) * (r + 1) ≤ n then r + 1 else r

/--
The place nearest to the square root.

The root of `s * 2 ^ t` units is the root of `s * 2 ^ (t + 1074)`, in units. Of that power of two
all but about 110 factors leave the root as a power of two. The integer root of what stays has at
least 56 binary digits; one more digit says whether something was cut off, and that settles the
rounding.
-/
def sqrt (m : Magnitude) : Magnitude :=
  let e := m.shift + 1074
  let h := e / 2 - 55
  let n := m.significand <<< (e - 2 * h)
  let r := intSqrt n (Nat.log2 n / 2 + 1)
  let rest := if r * r = n then 0 else 1
  if m = top then top else ofRatio ((2 * r + rest) <<< h) 2

end Magnitude

end Formula
