/-!
The shortest decimal that reads back as a given binary floating-point number. A number is taken
apart into a mantissa and a power of two; a decimal reads back as it when it lies between the
midpoints to its two neighbours, ends included when the mantissa is even. The digit counts are
tried in ascending order, and for each only the two grid points next to the number.
-/
namespace JavaSnippet.Decimal

/-- A binary interchange format. -/
structure BinaryFormat where
  fractionBits : Nat
  exponentBits : Nat
  deriving DecidableEq, Repr

def binary32 : BinaryFormat := ⟨23, 8⟩

def binary64 : BinaryFormat := ⟨52, 11⟩

/-- What the bits of a number say about it. -/
inductive Number where
  | notANumber
  | infinite (negative : Bool)
  | zero (negative : Bool)
  /-- The number `mantissa * 2 ^ exponent`. Its lower neighbour is at half the usual distance when
  `narrowBelow` holds. -/
  | finite (negative : Bool) (mantissa : Nat) (exponent : Int) (narrowBelow : Bool)
  deriving DecidableEq, Repr

/-- Takes the bits of a number apart. -/
def BinaryFormat.decode (format : BinaryFormat) (bits : Nat) : Number :=
  let unit := Nat.pow 2 format.fractionBits
  let range := Nat.pow 2 format.exponentBits
  let fraction := bits % unit
  let biased := bits / unit % range
  let negative := bits / unit / range % 2 == 1
  let bias : Int := range / 2 - 1
  let lowest : Int := 1 - bias - format.fractionBits
  if biased == range - 1 then
    if fraction == 0 then .infinite negative else .notANumber
  else if biased == 0 then
    if fraction == 0 then .zero negative else .finite negative fraction lowest false
  else .finite negative (unit + fraction) (lowest + biased - 1) (fraction == 0 && biased != 1)

/-- A non-negative decimal, `digits * 10 ^ exponent`. -/
structure Scaled where
  digits : Nat
  exponent : Int
  deriving DecidableEq, Repr

/-- A quotient of naturals. -/
structure Ratio where
  num : Nat
  den : Nat
  deriving DecidableEq, Repr

def powerOf (base : Nat) (exponent : Int) : Ratio :=
  if 0 ≤ exponent then ⟨Nat.pow base exponent.toNat, 1⟩ else ⟨1, Nat.pow base (-exponent).toNat⟩

def Ratio.mul (a b : Ratio) : Ratio := ⟨a.num * b.num, a.den * b.den⟩

def Ratio.lt (a b : Ratio) : Bool := a.num * b.den < b.num * a.den

def Ratio.le (a b : Ratio) : Bool := a.num * b.den ≤ b.num * a.den

def Scaled.value (d : Scaled) : Ratio := Ratio.mul ⟨d.digits, 1⟩ (powerOf 10 d.exponent)

/-- The exponent of the leading digit of a positive quotient. -/
def leadingExponent (v : Ratio) : Int :=
  let e : Int := (Nat.toDigits 10 v.num).length - (Nat.toDigits 10 v.den).length
  if Ratio.le (powerOf 10 e) v then e else e - 1

/-- The decimals that read back as a number: those between two midpoints. -/
structure Interval where
  low : Ratio
  high : Ratio
  closed : Bool
  deriving DecidableEq, Repr

def Interval.contains (i : Interval) (v : Ratio) : Bool :=
  if i.closed then i.low.le v && v.le i.high else i.low.lt v && v.lt i.high

/-- The interval of `mantissa * 2 ^ exponent`. -/
def interval (mantissa : Nat) (exponent : Int) (narrowBelow : Bool) : Interval where
  low := Ratio.mul ⟨4 * mantissa - (if narrowBelow then 1 else 2), 1⟩ (powerOf 2 (exponent - 2))
  high := Ratio.mul ⟨4 * mantissa + 2, 1⟩ (powerOf 2 (exponent - 2))
  closed := mantissa % 2 == 0

/-- The neighbour of `v` on the grid of multiples of `10 ^ exponent` that reads back, the nearer
of two, the upper one when both are equally near. -/
def onGrid (v : Ratio) (i : Interval) (exponent : Int) : Option Scaled :=
  let steps := Ratio.mul v (powerOf 10 (-exponent))
  let below := steps.num / steps.den
  let lower : Scaled := ⟨below, exponent⟩
  let upper : Scaled := ⟨below + 1, exponent⟩
  let upperNearer := steps.den ≤ 2 * (steps.num % steps.den)
  match i.contains lower.value, i.contains upper.value with
  | true, true => some (if upperNearer then upper else lower)
  | true, false => some lower
  | false, true => some upper
  | false, false => none

/-- Tries ever finer grids, from the one on which `v` has a single digit. -/
def refine (v : Ratio) (i : Interval) : Nat → Int → Scaled
  | 0, exponent => ⟨(Ratio.mul v (powerOf 10 (-exponent))).num, exponent⟩
  | rounds + 1, exponent =>
    match onGrid v i exponent with
    | some found => found
    | none => refine v i rounds (exponent - 1)

/-- The shortest decimal of `mantissa * 2 ^ exponent`. Seventeen digits are always enough. -/
def shortest (mantissa : Nat) (exponent : Int) (narrowBelow : Bool) : Scaled :=
  let v := Ratio.mul ⟨mantissa, 1⟩ (powerOf 2 exponent)
  refine v (interval mantissa exponent narrowBelow) 18 (leadingExponent v)

/-- The digits without zeros at the end, and the exponent of the first digit. -/
def Scaled.scientific (d : Scaled) : List Char × Int :=
  let digits := Nat.toDigits 10 d.digits
  let trimmed := (digits.reverse.dropWhile (· == '0')).reverse
  (trimmed, d.exponent + digits.length - 1)

/-- How numbers are written: positionally when the exponent of the leading digit is strictly
between the two bounds, always with a fraction; otherwise with a power of ten. -/
structure Layout where
  belowPositional : Int
  abovePositional : Int
  mark : String

def plainLayout : Layout := ⟨-5, 16, "e"⟩

def Layout.write (layout : Layout) (d : Scaled) : String :=
  let (digits, leading) := d.scientific
  if layout.belowPositional < leading && leading < layout.abovePositional then
    if leading < 0 then
      String.ofList (['0', '.'] ++ List.replicate (-leading - 1).toNat '0' ++ digits)
    else
      let whole := leading.toNat + 1
      let padded := digits ++ List.replicate (whole - digits.length) '0'
      let fraction := digits.drop whole
      String.ofList (padded.take whole ++ ['.'] ++ (if fraction.isEmpty then ['0'] else fraction))
  else
    let rest := digits.drop 1
    String.ofList (digits.take 1 ++ (if rest.isEmpty then [] else '.' :: rest)) ++
      layout.mark ++ toString leading

/-- The text of a number given by its bits. -/
def BinaryFormat.text (format : BinaryFormat) (bits : Nat) : String :=
  match format.decode bits with
  | .notANumber => "NaN"
  | .infinite negative => (if negative then "-" else "") ++ "inf"
  | .zero negative => (if negative then "-" else "") ++ "0.0"
  | .finite negative mantissa exponent narrowBelow =>
    (if negative then "-" else "") ++ plainLayout.write (shortest mantissa exponent narrowBelow)

/-- The text of a 32-bit number. -/
def text32 (bits : UInt32) : String := binary32.text bits.toNat

/-- The text of a 64-bit number. -/
def text64 (bits : UInt64) : String := binary64.text bits.toNat

end JavaSnippet.Decimal
