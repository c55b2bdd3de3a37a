/-!
# Binary floating-point formats

A bit pattern of a binary interchange format is a sign bit, an exponent field and a fraction
field. `Format.decode` says which number it stands for, as an exact product `m * 2 ^ q`, and
`Datum.equal` is the numerical comparison: a NaN equals nothing and the two zeros are equal.
-/

namespace MethodBody.Binary

/-- The field widths of a binary interchange format. -/
structure Format where
  exponentBits : Nat
  fractionBits : Nat
deriving DecidableEq

/-- The 32-bit format. -/
def single : Format := ⟨8, 23⟩

/-- The 64-bit format. -/
def double : Format := ⟨11, 52⟩

/-- The number a bit pattern stands for. -/
inductive Datum where
  | nan
  | infinite (negative : Bool)
  /-- The value `mantissa * 2 ^ exponent` with its sign. A mantissa of zero is a signed zero. The
  flag `narrow` says that the next smaller magnitude is only half a unit away, which happens where
  the exponent changes. -/
  | finite (negative : Bool) (mantissa : Nat) (exponent : Int) (narrow : Bool)
deriving DecidableEq

namespace Format

/-- The largest value of the exponent field, kept for infinities and NaNs. -/
def topExponent (format : Format) : Nat := Nat.pow 2 format.exponentBits - 1

/-- The power of two that one unit of a mantissa in the lowest binade counts. -/
def leastExponent (format : Format) : Int :=
  2 - (Nat.pow 2 (format.exponentBits - 1) : Int) - (format.fractionBits : Int)

/-- The number that the bit pattern `bits` stands for. -/
def decode (format : Format) (bits : Nat) : Datum :=
  let hidden := Nat.pow 2 format.fractionBits
  let fraction := bits % hidden
  let exponent := bits / hidden % Nat.pow 2 format.exponentBits
  let negative := bits / hidden / Nat.pow 2 format.exponentBits % 2 == 1
  if exponent = format.topExponent then
    if fraction = 0 then .infinite negative else .nan
  else if exponent = 0 then
    .finite negative fraction format.leastExponent false
  else
    .finite negative (hidden + fraction) (format.leastExponent + (exponent - 1 : Nat))
      (fraction == 0 && exponent != 1)

end Format

/-- Numerical equality. A NaN equals nothing, itself included, and both zeros are equal. -/
def Datum.equal : Datum → Datum → Bool
  | .infinite s, .infinite t => s == t
  | .finite s m q _, .finite t n r _ => (m == 0 && n == 0) || (s == t && m == n && q == r)
  | _, _ => false

end MethodBody.Binary
