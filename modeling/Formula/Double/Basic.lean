import Formula.Double.Magnitude

/-!
# Doubles

A double is NaN, or a sign and a magnitude. There is one NaN: no operation of this library can tell
two apart. Zero has two signs, and so equality of values (`equals`) and equality of terms differ in
exactly two ways: NaN is not equal to itself, and the two zeros are equal.
-/

namespace Formula

/-- A double-precision number: NaN, or a sign and a magnitude. -/
inductive Double where
  | nan
  | num (neg : Bool) (mag : Magnitude)
  deriving DecidableEq

namespace Double

instance : Inhabited Double := ⟨.nan⟩

def zero : Double := .num false .zero

def infinity : Double := .num false .top

def ofNat (n : Nat) : Double := .num false (.ofNat n)

/-- The double nearest to an integer. -/
def ofInt (n : Int) : Double := .num (decide (n < 0)) (.ofNat n.natAbs)

def one : Double := ofNat 1

/-! ## Binary64 encoding -/

/-- The sign bit stands above the place. -/
def toBits : Double → Nat
  | .nan => 0x7ff8000000000000
  | .num neg mag => (if neg then 0x8000000000000000 else 0) + mag.place

/-- Reads 64 bits; every encoding above that of infinity is NaN. -/
def ofBits (bits : Nat) : Double :=
  let p := bits % 0x8000000000000000
  if p ≤ 0x7ff0000000000000 then .num (decide (0x8000000000000000 ≤ bits)) (.ofPlace p) else .nan

/-- **An encoding reads back.** -/
theorem ofBits_toBits (x : Double) : ofBits x.toBits = x := by
  cases x with
  | nan => decide
  | num neg m =>
    have hm := m.place_le
    have hsign : (if neg then 0x8000000000000000 else 0) + m.place
        = if neg then 0x8000000000000000 + m.place else m.place := by
      cases neg <;> simp
    rw [toBits, ofBits, hsign]
    cases neg with
    | false =>
      have hmod : m.place % 0x8000000000000000 = m.place := Nat.mod_eq_of_lt (by omega)
      have hlt : ¬ 0x8000000000000000 ≤ m.place := by omega
      simp [hmod, hm, hlt, Magnitude.ofPlace_place]
    | true =>
      have hmod : (0x8000000000000000 + m.place) % 0x8000000000000000 = m.place := by omega
      simp [hmod, hm, Magnitude.ofPlace_place]

/-! ## Classes -/

def isNaN : Double → Bool
  | .nan => true
  | .num _ _ => false

def isInfinite : Double → Bool
  | .nan => false
  | .num _ mag => mag = .top

def isFinite : Double → Bool
  | .nan => false
  | .num _ mag => mag ≠ .top

/-! ## Order -/

/-- A number's place on the whole line; both zeros are at place 0. NaN has none. -/
def rank? : Double → Option Int
  | .nan => none
  | .num neg mag => some (if neg then -(mag.place : Int) else mag.place)

/-- Compares the values; a comparison with NaN is false. -/
def compares (test : Int → Int → Bool) (x y : Double) : Bool :=
  match x.rank?, y.rank? with
  | some a, some b => test a b
  | _, _ => false

def equals : Double → Double → Bool := compares fun a b => a = b

def lt : Double → Double → Bool := compares fun a b => a < b

def le : Double → Double → Bool := compares fun a b => a ≤ b

/-! ## Exact values -/

/-- The exact value of a finite double in units of `2 ^ (-1074)`. -/
def units? : Double → Option Int
  | .nan => none
  | .num neg mag =>
    if mag = .top then none else some (if neg then -(mag.units : Int) else mag.units)

/-- The greatest integer that is not above a finite double. -/
def floor? (x : Double) : Option Int :=
  x.units?.map fun u => u.fdiv Magnitude.unitsPerOne

/-- The least integer that is not below a finite double. -/
def ceil? (x : Double) : Option Int :=
  x.units?.map fun u => -(-u).fdiv Magnitude.unitsPerOne

/-- Whether a double equals the greatest integer that is not above another one. NaN and the
infinities take the place of such an integer themselves. -/
def equalsFloor (x y : Double) : Bool :=
  match y.floor?, x.units? with
  | some n, some u => u = n * Magnitude.unitsPerOne
  | some _, none => false
  | none, _ => x.equals y

/-- A finite double without fractional part. -/
def isInteger (x : Double) : Bool :=
  match x.units? with
  | none => false
  | some u => u % Magnitude.unitsPerOne = 0

end Double

end Formula
