/-!
# Decimal digits

## Main definitions

* `digitValue`, `digitsValue`: the number that a digit or several of them write.
* `padded`: the digits of a number, filled up with zeros.
-/

namespace FlowDoc.Text

/-- The value of a decimal digit. -/
def digitValue (c : Char) : Nat :=
  c.toNat - 0x30

/-- The number that decimal digits write, the most significant one first. -/
def digitsValue (ds : List Char) : Nat :=
  ds.foldl (fun n d => 10 * n + digitValue d) 0

/-- The decimal digits of a number, after as many zeros as the width asks for. -/
def padded (width n : Nat) : String :=
  String.ofList ((Nat.toDigits 10 n).leftpad width '0')

end FlowDoc.Text
