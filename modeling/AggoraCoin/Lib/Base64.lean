import AggoraCoin.Lib.Bytes

namespace Base64

/-- The value of a character, with `c62` and `c63` as the last two of the alphabet. -/
def sextet (c62 c63 : Char) (c : Char) : Option Nat :=
  if 'A' ≤ c ∧ c ≤ 'Z' then some (c.toNat - 65)
  else if 'a' ≤ c ∧ c ≤ 'z' then some (c.toNat - 71)
  else if '0' ≤ c ∧ c ≤ '9' then some (c.toNat + 4)
  else if c = c62 then some 62
  else if c = c63 then some 63
  else none

/-- Four sextets to three bytes. A final group of two or three must leave no bits over. -/
def joinSextets : List Nat → Option Bytes
  | [] => some []
  | [_] => none
  | [a, b] => if b % 16 = 0 then some [UInt8.ofNat (4 * a + b / 16)] else none
  | [a, b, c] =>
    if c % 4 = 0 then some [UInt8.ofNat (4 * a + b / 16), UInt8.ofNat (16 * b + c / 4)] else none
  | a :: b :: c :: d :: rest => do
    let bytes ← joinSextets rest
    some (UInt8.ofNat (4 * a + b / 16) :: UInt8.ofNat (16 * b + c / 4) :: UInt8.ofNat (64 * c + d) :: bytes)

def decodeBody (c62 c63 : Char) (body : List Char) : Option Bytes :=
  (body.mapM (sextet c62 c63)).bind joinSextets

/-- The standard alphabet; the padding must fill the last group and nothing more. -/
def decodeStandard (text : List Char) : Option Bytes :=
  let body := text.takeWhile (· ≠ '=')
  let padding := text.dropWhile (· ≠ '=')
  if padding = List.replicate ((4 - body.length % 4) % 4) '=' then decodeBody '+' '/' body else none

/-- The URL-safe alphabet; no padding is accepted. -/
def decodeUrlSafeNoPad (text : List Char) : Option Bytes := decodeBody '-' '_' text

end Base64
