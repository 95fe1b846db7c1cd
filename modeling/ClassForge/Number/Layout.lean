import ClassForge.Number.Shortest

/-!
# How numbers are written

A number is written with its shortest digits.  What remains to be decided, when
an exponent is used and whether a whole number keeps a fraction, is the content
of a `NumberStyle`.
-/

namespace ClassForge

/-- Decisions about the text of a floating point number. -/
structure NumberStyle where
  /-- Least and greatest exponent of the leading digit that is written without
  an exponent; `none` means that none ever is. -/
  positional : Option (Int × Int)
  /-- Whether a whole number is followed by `.0`. -/
  wholePoint : Bool

namespace NumberStyle

/-- Positional throughout, whole numbers without a fraction. -/
def plain : NumberStyle := ⟨none, false⟩

/-- Recognisable as a floating point number: whole numbers keep a fraction, and
very large and very small numbers have an exponent. -/
def explicit : NumberStyle := ⟨some (-4, 15), true⟩

/-- Digits with the point put in at a position, which may lie outside them. -/
def pointed (style : NumberStyle) (digits : String) (position : Int) : String :=
  let count := digits.length
  if position ≤ 0 then
    "0." ++ "".pushn '0' (-position).toNat ++ digits
  else if (count : Int) ≤ position then
    digits.pushn '0' (position.toNat - count) ++
      (if style.wholePoint then ".0" else "")
  else
    let before := position.toNat
    String.ofList (digits.toList.take before) ++ "." ++
      String.ofList (digits.toList.drop before)

/-- Digits with the point after the first, and an exponent. -/
def scientific (digits : String) (exponent : Int) : String :=
  let first := String.ofList (digits.toList.take 1)
  let rest := String.ofList (digits.toList.drop 1)
  first ++ (if rest.isEmpty then "" else "." ++ rest) ++ "e" ++
    toString exponent

/-- Text of a decimal. -/
def decimalText (style : NumberStyle) (decimal : Decimal) : String :=
  let digits := toString decimal.digits
  let position : Int := digits.length + decimal.exponent
  match style.positional with
  | none => style.pointed digits position
  | some (least, greatest) =>
      if least ≤ position - 1 ∧ position - 1 ≤ greatest then
        style.pointed digits position
      else scientific digits (position - 1)

/-- Text of a number of a format. -/
def text (style : NumberStyle) (format : BinaryFormat) : BinaryDatum → String
  | .nan => "NaN"
  | .infinite negative => if negative then "-inf" else "inf"
  | .finite negative mantissa exponent =>
      let sign := if negative then "-" else ""
      if mantissa = 0 then sign ++ style.pointed "0" 1
      else
        let interval := RoundingInterval.of format mantissa exponent
        sign ++ style.decimalText (Decimal.shortest interval)

end NumberStyle

/-- Plain text of a number of the single format. -/
def Binary32.text (x : Binary32) : String :=
  NumberStyle.plain.text .single x.datum

/-- Plain text of a number of the double format. -/
def Binary64.text (x : Binary64) : String :=
  NumberStyle.plain.text .double x.datum

/-- Text of a number that cannot be taken for an integer. -/
def Binary64.explicitText (x : Binary64) : String :=
  NumberStyle.explicit.text .double x.datum

end ClassForge
