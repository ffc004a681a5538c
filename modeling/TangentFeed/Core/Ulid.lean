import TangentFeed.Js.Text

/-!
# ULIDs

48 bits of time and 80 random bits in Crockford base 32.
-/

namespace TangentFeed

/-- `B32[n]`. -/
def base32Char (n : Nat) : CodeUnit := (js "0123456789ABCDEFGHJKMNPQRSTVWXYZ")[n]?.getD 0

/-- The last `w` base-32 digits of `t`. -/
def timeChars : Nat → Nat → JsString
  | 0, _ => []
  | w + 1, t => timeChars w (t / 32) ++ [base32Char (t % 32)]

/-- The `while (bits >= 5)` loop: `acc` is a 32-bit accumulator whose low `bits`
bits are not yet written. -/
def drainBits (acc : Nat) : Nat → JsString × Nat
  | bits + 5 =>
    let rest := drainBits acc bits
    (base32Char (acc / 2 ^ bits % 32) :: rest.1, rest.2)
  | bits => ([], bits)

def randomChars : Nat → Nat → Bytes → JsString
  | _, _, [] => []
  | acc, bits, byte :: rest =>
    let acc := (acc * 256 + byte.val) % 2 ^ 32
    let drained := drainBits acc (bits + 8)
    drained.1 ++ randomChars acc drained.2 rest

/-- `ulid(time, …)`, `none` where it throws. -/
def ulid (time : Nat) (random : Bytes) : Option JsString :=
  if 2 ^ 48 - 1 < time then none else some (timeChars 10 time ++ randomChars 0 0 random)

example : ulid (2 ^ 48 - 1) [0, 1, 2, 3, 4, 5, 6, 7, 8, 255] =
    some (js "7ZZZZZZZZZ000G40R40M30E27Z") := by decide +kernel

end TangentFeed
