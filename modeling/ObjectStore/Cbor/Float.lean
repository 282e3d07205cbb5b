/-! # Float widths

A float is known by the 64 bits of its double-width form. A narrower format keeps fewer bits of
exponent and mantissa; `widen` gives the double-width bits of a narrow float, and `narrow?` the
narrow bits of a float that the format holds exactly. All of it is arithmetic on the bits, so that
a not-a-number keeps its payload.
-/

namespace ObjectStore.Cbor

def twoTo (n : Nat) : Nat := 1 <<< n

/-- A float format narrower than double width: a sign, an exponent and a mantissa. -/
structure FloatFormat where
  exponentBits : Nat
  mantissaBits : Nat
  deriving DecidableEq, Repr

namespace FloatFormat

/-- Two bytes: five bits of exponent and ten of mantissa. -/
def half : FloatFormat := ⟨5, 10⟩

/-- Four bytes: eight bits of exponent and twenty-three of mantissa. -/
def single : FloatFormat := ⟨8, 23⟩

/-- The exponent that stands for a power of zero. -/
def bias (f : FloatFormat) : Nat := twoTo (f.exponentBits - 1) - 1

/-- The exponent field of infinities and not-a-numbers. -/
def special (f : FloatFormat) : Nat := twoTo f.exponentBits - 1

def width (f : FloatFormat) : Nat := 1 + f.exponentBits + f.mantissaBits

/-- Double-width bits put together from their fields. -/
def double (sign exponent mantissa : Nat) : Nat :=
  sign * twoTo 63 + exponent * twoTo 52 + mantissa

/-- The double-width bits of a narrow float. A not-a-number becomes a quiet one. -/
def widen (f : FloatFormat) (bits : Nat) : UInt64 :=
  let mantissa := bits % twoTo f.mantissaBits
  let exponent := bits / twoTo f.mantissaBits % twoTo f.exponentBits
  let sign := bits / twoTo (f.mantissaBits + f.exponentBits) % 2
  let shifted := mantissa * twoTo (52 - f.mantissaBits)
  .ofNat <|
    if exponent = f.special then
      if mantissa = 0 then double sign 2047 0
      else double sign 2047 (twoTo 51 + shifted % twoTo 51)
    else if exponent = 0 then
      if mantissa = 0 then double sign 0 0
      else
        let top := mantissa.log2
        double sign (1024 - f.bias - f.mantissaBits + top)
          ((mantissa - twoTo top) * twoTo (52 - top))
    else double sign (exponent + 1023 - f.bias) shifted

/-- Narrow bits whose fields are those of a float as far as the format has room for them. -/
def cut (f : FloatFormat) (bits : UInt64) : Nat :=
  let mantissa := bits.toNat % twoTo 52
  let exponent := bits.toNat / twoTo 52 % twoTo 11
  let sign := bits.toNat / twoTo 63
  let signed := sign * twoTo (f.mantissaBits + f.exponentBits)
  let kept := mantissa / twoTo (52 - f.mantissaBits)
  if exponent = 2047 then
    signed + f.special * twoTo f.mantissaBits + kept
  else if 1024 ≤ exponent + f.bias then
    signed + (exponent + f.bias - 1023) * twoTo f.mantissaBits + kept
  else
    signed + (twoTo 52 + mantissa) / twoTo (52 - f.mantissaBits + (1024 - f.bias - exponent))

/-- The narrow bits of a float the format holds exactly. -/
def narrow? (f : FloatFormat) (bits : UInt64) : Option Nat :=
  let narrow := f.cut bits
  if narrow < twoTo f.width ∧ f.widen narrow = bits then some narrow else none

end FloatFormat

/-- The double-width bits of a small whole number. -/
def floatOfByte (b : UInt8) : UInt64 :=
  let n := b.toNat
  if n = 0 then 0
  else .ofNat (FloatFormat.double 0 (1023 + n.log2) ((n - twoTo n.log2) * twoTo (52 - n.log2)))

end ObjectStore.Cbor
