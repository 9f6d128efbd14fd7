/-!
# Bytes written in base 64

Three bytes are written by four characters of sixty-four; at the end, one or two bytes are written
by two or three characters, and equals signs fill up the four.  The bits that are left over there
are zero, so bytes are written in one way only.

## Main definitions

* `Text.base64Bytes?` : the bytes that characters write.
-/

namespace GraphQLClient.Text

/-- The six bits that a character stands for. -/
def base64Value? (c : Char) : Option Nat :=
  if 'A' ≤ c ∧ c ≤ 'Z' then some (c.toNat - 'A'.toNat)
  else if 'a' ≤ c ∧ c ≤ 'z' then some (c.toNat - 'a'.toNat + 26)
  else if '0' ≤ c ∧ c ≤ '9' then some (c.toNat - '0'.toNat + 52)
  else if c = '+' then some 62
  else if c = '/' then some 63
  else none

/-- A byte with a given value. -/
def byte (n : Nat) : UInt8 := UInt8.ofNat (n % 256)

/-- The bytes that characters write. -/
def base64Bytes? : List Char → Option (List UInt8)
  | [] => some []
  | [a, b, '=', '='] => do
    let n := 64 * (← base64Value? a) + (← base64Value? b)
    if n % 16 = 0 then some [byte (n / 16)] else none
  | [a, b, c, '='] => do
    let n := 64 * (64 * (← base64Value? a) + (← base64Value? b)) + (← base64Value? c)
    if n % 4 = 0 then some [byte (n / 1024), byte (n / 4)] else none
  | a :: b :: c :: d :: rest => do
    let n := 64 * (64 * (64 * (← base64Value? a) + (← base64Value? b)) + (← base64Value? c)) +
      (← base64Value? d)
    pure (byte (n / 65536) :: byte (n / 256) :: byte n :: (← base64Bytes? rest))
  | _ => none

end GraphQLClient.Text
