import Mathlib.Algebra.Order.Ring.Nat
import Mathlib.Data.List.Basic

/-!
# Base64 groups

Bytes are regrouped three at a time into four sextets (values below 64), a last
group of one or two bytes into two or three sextets. `ofSextets` is the
inverse; a last group of one sextet has no meaning. Alphabets and padding are
the user's: `encode` and `decode` take the alphabet as a pair of functions.
-/

namespace Base64

/-- Regroup bytes into sextets, most significant bits first. -/
def toSextets : List (Fin 256) → List Nat
  | a :: b :: c :: rest =>
    a.val / 4 :: (a.val % 4 * 16 + b.val / 16) :: (b.val % 16 * 4 + c.val / 64) :: c.val % 64 ::
      toSextets rest
  | [a, b] => [a.val / 4, a.val % 4 * 16 + b.val / 16, b.val % 16 * 4]
  | [a] => [a.val / 4, a.val % 4 * 16]
  | [] => []

local instance neZeroBytes : NeZero 256 := ⟨by decide⟩

/-- Regroup sextets into bytes; the spare low bits of a short group are dropped. -/
def ofSextets : List Nat → Option (List (Fin 256))
  | p :: q :: r :: s :: rest =>
    (ofSextets rest).map fun bs =>
      Fin.ofNat 256 (p * 4 + q / 16) :: Fin.ofNat 256 (q % 16 * 16 + r / 4) ::
        Fin.ofNat 256 (r % 4 * 64 + s) :: bs
  | [p, q, r] => some [Fin.ofNat 256 (p * 4 + q / 16), Fin.ofNat 256 (q % 16 * 16 + r / 4)]
  | [p, q] => some [Fin.ofNat 256 (p * 4 + q / 16)]
  | [_] => none
  | [] => some []

theorem toSextets_lt : ∀ (bs : List (Fin 256)), ∀ n ∈ toSextets bs, n < 64
  | [] => by simp [toSextets]
  | [a] => by
    have := a.isLt
    simp only [toSextets, List.mem_cons, List.not_mem_nil, or_false]
    omega
  | [a, b] => by
    have := a.isLt; have := b.isLt
    simp only [toSextets, List.mem_cons, List.not_mem_nil, or_false]
    omega
  | a :: b :: c :: rest => by
    have := a.isLt; have := b.isLt; have := c.isLt
    intro n hn
    simp only [toSextets, List.mem_cons] at hn
    rcases hn with h | h | h | h | h
    · omega
    · omega
    · omega
    · omega
    · exact toSextets_lt rest n h

private theorem byte_eq {n : Nat} {a : Fin 256} (h : n = a.val) : Fin.ofNat 256 n = a := by
  subst h
  exact Fin.ext (Nat.mod_eq_of_lt a.isLt)

/-- Regrouping loses nothing. -/
theorem ofSextets_toSextets : ∀ bs : List (Fin 256), ofSextets (toSextets bs) = some bs
  | [] => rfl
  | [a] => by
    have := a.isLt
    simp only [toSextets, ofSextets]
    rw [byte_eq (a := a) (by omega)]
  | [a, b] => by
    have := a.isLt; have := b.isLt
    simp only [toSextets, ofSextets]
    rw [byte_eq (a := a) (by omega), byte_eq (a := b) (by omega)]
  | a :: b :: c :: rest => by
    have := a.isLt; have := b.isLt; have := c.isLt
    simp only [toSextets, ofSextets, ofSextets_toSextets rest, Option.map_some]
    rw [byte_eq (a := a) (by omega), byte_eq (a := b) (by omega), byte_eq (a := c) (by omega)]

theorem length_toSextets : ∀ bs : List (Fin 256),
    (toSextets bs).length = 4 * (bs.length / 3) + (if bs.length % 3 = 0 then 0 else bs.length % 3 + 1)
  | [] => rfl
  | [_] => by simp [toSextets]
  | [_, _] => by simp [toSextets]
  | _ :: _ :: _ :: rest => by
    simp only [toSextets, List.length_cons, length_toSextets rest]
    rw [show (rest.length + 1 + 1 + 1) % 3 = rest.length % 3 by omega,
      show (rest.length + 1 + 1 + 1) / 3 = rest.length / 3 + 1 by omega]
    omega

section Alphabet

variable {α : Type*} (char : Nat → α) (value : α → Option Nat)

/-- The values of a string of alphabet characters. -/
def values : List α → Option (List Nat)
  | [] => some []
  | c :: cs => do
    let n ← value c
    let ns ← values cs
    pure (n :: ns)

variable {char value}

theorem values_map (h : ∀ n < 64, value (char n) = some n) :
    ∀ {ns : List Nat}, (∀ n ∈ ns, n < 64) → values value (ns.map char) = some ns
  | [], _ => rfl
  | n :: ns, hn => by
    have h1 := h n (hn n List.mem_cons_self)
    have h2 : values value (ns.map char) = some ns :=
      values_map h fun m hm => hn m (List.mem_cons_of_mem _ hm)
    simp [values, h1, h2]

variable (char value)

/-- The characters of some bytes, unpadded. -/
def encode (bs : List (Fin 256)) : List α := (toSextets bs).map char

/-- The bytes of an unpadded string. -/
def decode (s : List α) : Option (List (Fin 256)) := (values value s).bind ofSextets

variable {char value}

/-- **Round trip**, for any alphabet whose characters are told apart. -/
theorem decode_encode (h : ∀ n < 64, value (char n) = some n) (bs : List (Fin 256)) :
    decode value (encode char bs) = some bs := by
  unfold decode encode
  rw [values_map h (toSextets_lt bs), Option.bind_some, ofSextets_toSextets]

end Alphabet

end Base64
