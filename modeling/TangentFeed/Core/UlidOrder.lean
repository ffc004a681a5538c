import Mathlib.Data.Nat.ModEq
import TangentFeed.Core.Op
import TangentFeed.Core.Ulid
import TangentFeed.Js.Hex
import TangentFeed.Lib.Positional

/-!
# The order of ULIDs

A ULID is two numerals in base 32, of the time and of the random bytes. The loop
over the bytes never masks its accumulator; what it has written is the quintets
of all bits so far but the last few, whatever the upper bits have become.
-/

namespace TangentFeed

open Positional

theorem base32Char_lt : ∀ d < 32, ∀ e < 32, (base32Char d < base32Char e ↔ d < e) := by
  decide +kernel

theorem isUlidUnit_base32Char : ∀ d < 32, isUlidUnit (base32Char d) = true := by decide +kernel

theorem mem_alphabet :
    ∀ d < 32, base32Char d ∈ js "0123456789ABCDEFGHJKMNPQRSTVWXYZ" := by decide +kernel

theorem timeChars_eq (w t : Nat) : timeChars w t = (digits 32 w t).map base32Char := by
  induction w generalizing t with
  | zero => rfl
  | succ w ih => rw [timeChars, ih, digits, List.map_append, List.map_singleton]

/-! ## Quintets -/

/-- The complete quintets among the last `n` bits of `v`, from the top. -/
def quintets (n v : Nat) : List Nat := digits 32 (n / 5) (v / 2 ^ (n % 5))

theorem two_pow_quintets (n : Nat) : 2 ^ (n % 5) * 32 ^ (n / 5) = 2 ^ n := by
  rw [show 32 = 2 ^ 5 from rfl, ← Nat.pow_mul, ← Nat.pow_add, Nat.mod_add_div]

/-- The first bits' quintets, then those of the rest with what is left of the first. -/
theorem quintets_add (n m v : Nat) :
    quintets (n + m) v = quintets n (v / 2 ^ m) ++ quintets (n % 5 + m) v := by
  have hdiv : (n + m) / 5 = n / 5 + (n % 5 + m) / 5 := by omega
  have hmod : (n + m) % 5 = (n % 5 + m) % 5 := by omega
  have hhigh : v / 2 ^ ((n % 5 + m) % 5) / 32 ^ ((n % 5 + m) / 5) = v / 2 ^ m / 2 ^ (n % 5) := by
    rw [Nat.div_div_eq_div_mul, two_pow_quintets, Nat.div_div_eq_div_mul, Nat.pow_add, Nat.mul_comm]
  rw [quintets, hdiv, hmod, digits_add, hhigh]
  rfl

/-- Only the last `n` bits count. -/
theorem quintets_congr {n u v : Nat} (h : u % 2 ^ n = v % 2 ^ n) : quintets n u = quintets n v := by
  have hmod : ∀ v, quintets n (v % 2 ^ n) = quintets n v := by
    intro v
    rw [quintets, ← two_pow_quintets n, Nat.mod_mul_right_div_self, digits_mod]
    rfl
  rw [← hmod u, h, hmod]

/-! ## The loop over the random bytes -/

/-- **The inner loop** writes the quintets of the bits that are waiting. -/
theorem drainBits_eq (acc bits : Nat) :
    drainBits acc bits = ((quintets bits acc).map base32Char, bits % 5) := by
  induction bits using Nat.strong_induction_on with
  | _ bits ih =>
    match bits with
    | 0 | 1 | 2 | 3 | 4 => rfl
    | bits + 5 =>
      have hfirst : ∀ v, quintets 5 v = [v % 32] := by
        intro v
        rw [quintets, Nat.mod_self, Nat.pow_zero, Nat.div_one]
        rfl
      have hsplit : quintets (bits + 5) acc = acc / 2 ^ bits % 32 :: quintets bits acc := by
        rw [Nat.add_comm, quintets_add, Nat.mod_self, Nat.zero_add, hfirst, List.singleton_append]
      rw [drainBits, ih bits (by omega), hsplit, List.map_cons, Nat.add_mod_right]

theorem value_bytes_lt (b : Bytes) : value 256 (b.map Fin.val) < 2 ^ (8 * b.length) := by
  rw [Nat.pow_mul, ← List.length_map Fin.val]
  refine value_lt (by decide) fun d hd => ?_
  obtain ⟨byte, -, rfl⟩ := List.mem_map.1 hd
  exact byte.isLt

/-- **The outer loop** writes the quintets of the bits that wait and of all bytes. -/
theorem randomChars_eq {acc bits : Nat} (hb : bits < 5) (random : Bytes) :
    randomChars acc bits random = (quintets (bits + 8 * random.length)
      (acc * 2 ^ (8 * random.length) + value 256 (random.map Fin.val))).map base32Char := by
  induction random generalizing acc bits with
  | nil =>
    rw [List.length_nil, Nat.mul_zero, Nat.add_zero, quintets, Nat.div_eq_of_lt hb]
    rfl
  | cons byte rest ih =>
    have hrest := value_bytes_lt rest
    have hvalue : acc * 2 ^ (8 * (byte :: rest).length) + value 256 ((byte :: rest).map Fin.val) =
        (acc * 256 + byte.val) * 2 ^ (8 * rest.length) + value 256 (rest.map Fin.val) := by
      have hpow : 256 ^ rest.length = 2 ^ (8 * rest.length) := (Nat.pow_mul 2 8 _).symm
      rw [List.length_cons, Nat.mul_succ, Nat.pow_add, List.map_cons, value_cons, List.length_map,
        hpow, Nat.add_mul, Nat.mul_comm (2 ^ _) (2 ^ 8), ← Nat.mul_assoc, Nat.add_assoc]
    rw [randomChars, drainBits_eq, ih (Nat.mod_lt _ (by decide)), ← List.map_append, hvalue,
      show bits + 8 * (byte :: rest).length = bits + 8 + 8 * rest.length by
        rw [List.length_cons]; omega]
    generalize value 256 (rest.map Fin.val) = r at hrest ⊢
    generalize 8 * rest.length = m at hrest ⊢
    generalize acc * 256 + byte.val = v
    -- more bits are kept than wait
    have hkept : 2 ^ ((bits + 8) % 5) ∣ 2 ^ 32 := Nat.pow_dvd_pow 2 (by omega)
    have hfirst : quintets (bits + 8) (v % 2 ^ 32) = quintets (bits + 8) ((v * 2 ^ m + r) / 2 ^ m) := by
      rw [Nat.mul_comm, Nat.mul_add_div (Nat.two_pow_pos m), Nat.div_eq_of_lt hrest, Nat.add_zero]
      exact quintets_congr (Nat.mod_mod_of_dvd v (Nat.pow_dvd_pow 2 (by omega)))
    have hlast : quintets ((bits + 8) % 5 + m) (v % 2 ^ 32 * 2 ^ m + r) =
        quintets ((bits + 8) % 5 + m) (v * 2 ^ m + r) := by
      refine quintets_congr ?_
      rw [Nat.pow_add]
      have hmask : Nat.ModEq (2 ^ ((bits + 8) % 5)) (v % 2 ^ 32) v := Nat.mod_mod_of_dvd v hkept
      exact (hmask.mul_right' (2 ^ m)).add_right r
    rw [hfirst, hlast, ← quintets_add]

/-- Ten random bytes are sixteen digits of their number. -/
theorem randomChars_ten {random : Bytes} (h : random.length = 10) :
    randomChars 0 0 random = (digits 32 16 (value 256 (random.map Fin.val))).map base32Char := by
  rw [randomChars_eq (by decide), h, Nat.zero_mul, Nat.zero_add, Nat.zero_add, quintets,
    Nat.pow_zero, Nat.div_one]

/-! ## Ids -/

/-- What `ulid` is called with: a time in range, and the ten bytes that it asks for. -/
structure Mint where
  time : Nat
  random : Bytes
  time_le : time ≤ 2 ^ 48 - 1
  length_random : random.length = 10

namespace Mint

/-- The id it returns. -/
def id (m : Mint) : JsString := (ulid m.time m.random).getD []

theorem ulid_eq (m : Mint) : ulid m.time m.random = some m.id := by
  unfold id ulid
  rw [if_neg (Nat.not_lt.2 m.time_le)]
  rfl

theorem id_eq (m : Mint) : m.id = (digits 32 10 m.time).map base32Char ++
    (digits 32 16 (value 256 (m.random.map Fin.val))).map base32Char := by
  have h := m.ulid_eq
  rw [ulid, if_neg (Nat.not_lt.2 m.time_le), timeChars_eq, randomChars_ten m.length_random] at h
  exact (Option.some.inj h).symm

/-- By time, then by the random bytes. -/
def Before (m n : Mint) : Prop := m.time < n.time ∨ m.time = n.time ∧ m.random < n.random

/-- Every unit of an id is a digit. -/
theorem mem_id (m : Mint) {c : CodeUnit} (h : c ∈ m.id) : ∃ d < 32, base32Char d = c := by
  rw [id_eq, ← List.map_append] at h
  obtain ⟨d, hd, rfl⟩ := List.mem_map.1 h
  rcases List.mem_append.1 hd with hd | hd
  · exact ⟨d, digits_lt (by decide) _ _ d hd, rfl⟩
  · exact ⟨d, digits_lt (by decide) _ _ d hd, rfl⟩

theorem length_id (m : Mint) : m.id.length = 26 := by
  rw [id_eq, List.length_append, List.length_map, List.length_map, length_digits, length_digits]

theorem isUlid_id (m : Mint) : isUlid m.id = true := by
  rw [isUlid, m.length_id, Bool.and_eq_true, List.all_eq_true]
  refine ⟨rfl, fun c hc => ?_⟩
  obtain ⟨d, hd, rfl⟩ := m.mem_id hc
  exact isUlidUnit_base32Char d hd

theorem time_lt_iff {m n : Mint} : (digits 32 10 m.time).map base32Char <
    (digits 32 10 n.time).map base32Char ↔ m.time < n.time := by
  have hlt : ∀ m : Mint, m.time < 32 ^ 10 := fun m => by
    have := m.time_le
    omega
  rw [map_lt_map_iff (by decide) base32Char_lt (by rw [length_digits, length_digits])
    (digits_lt (by decide) _ _) (digits_lt (by decide) _ _), value_digits (hlt m),
    value_digits (hlt n)]

theorem random_lt_iff {m n : Mint} :
    (digits 32 16 (value 256 (m.random.map Fin.val))).map base32Char <
      (digits 32 16 (value 256 (n.random.map Fin.val))).map base32Char ↔ m.random < n.random := by
  have hlt : ∀ m : Mint, value 256 (m.random.map Fin.val) < 32 ^ 16 := fun m => by
    have h := value_bytes_lt m.random
    rwa [m.length_random] at h
  have hbytes : ∀ b : Bytes, (b.map Fin.val).map (Fin.ofNat 256) = b := by
    intro b
    rw [List.map_map]
    exact (List.map_congr_left fun byte _ => Fin.ofNat_val_eq_self byte).trans (List.map_id b)
  have hval : ∀ b : Bytes, ∀ d ∈ b.map Fin.val, d < 256 := by
    intro b d hd
    obtain ⟨byte, -, rfl⟩ := List.mem_map.1 hd
    exact byte.isLt
  have hord : ∀ d < 256, ∀ e < 256, (Fin.ofNat 256 d < Fin.ofNat 256 e ↔ d < e) := by
    intro d hd e he
    rw [Fin.lt_def, Fin.val_ofNat, Fin.val_ofNat, Nat.mod_eq_of_lt hd, Nat.mod_eq_of_lt he]
  rw [map_lt_map_iff (by decide) base32Char_lt (by rw [length_digits, length_digits])
    (digits_lt (by decide) _ _) (digits_lt (by decide) _ _), value_digits (hlt m),
    value_digits (hlt n), ← map_lt_map_iff (by decide) hord _ (hval m.random) (hval n.random),
    hbytes, hbytes]
  rw [List.length_map, List.length_map, m.length_random, n.length_random]

/-- **Ids are ordered by time, then by the random bytes.** -/
theorem id_lt_iff {m n : Mint} : m.id < n.id ↔ m.Before n := by
  have htime : (digits 32 10 m.time).map base32Char = (digits 32 10 n.time).map base32Char ↔
      m.time = n.time := by
    rw [eq_iff_le_not_lt, ← not_lt, time_lt_iff, time_lt_iff]
    omega
  rw [id_eq, id_eq, append_lt_append, time_lt_iff, random_lt_iff, htime]
  · rfl
  · rw [List.length_map, List.length_map, length_digits, length_digits]

theorem id_inj {m n : Mint} : m.id = n.id ↔ m.time = n.time ∧ m.random = n.random := by
  constructor
  · intro h
    have hmn : ¬ m.Before n := fun hb => (id_lt_iff.2 hb).ne h
    have hnm : ¬ n.Before m := fun hb => (id_lt_iff.2 hb).ne h.symm
    unfold Before at hmn hnm
    have htime : m.time = n.time := by
      rcases Nat.lt_trichotomy m.time n.time with hlt | heq | hgt
      · exact absurd (.inl hlt) hmn
      · exact heq
      · exact absurd (.inl hgt) hnm
    refine ⟨htime, le_antisymm ?_ ?_⟩
    · exact not_lt.1 fun hlt => hnm (.inr ⟨htime.symm, hlt⟩)
    · exact not_lt.1 fun hlt => hmn (.inr ⟨htime, hlt⟩)
  · rintro ⟨htime, hrandom⟩
    rw [id, id, htime, hrandom]

end Mint

/-- **A ULID is an order-preserving name.** It passes the check of row ids; two are equal
only for one time and the same bytes, and they are ordered by time and then by the bytes, so
that sorting ids as strings sorts them by time. -/
theorem ulid_order (m n : Mint) (mints : List Mint) :
    ulid m.time m.random = some m.id ∧ m.id.length = 26 ∧ isUlid m.id = true ∧
    (∀ c ∈ m.id, c ∈ js "0123456789ABCDEFGHJKMNPQRSTVWXYZ") ∧
    (m.id = n.id ↔ m.time = n.time ∧ m.random = n.random) ∧
    (m.id < n.id ↔ m.time < n.time ∨ m.time = n.time ∧ m.random < n.random) ∧
    ∃ sorted : List Mint, sorted.Perm mints ∧
      sorted.map Mint.id = sortStrings (mints.map Mint.id) ∧
      sorted.Pairwise fun m n => m.time ≤ n.time := by
  refine ⟨m.ulid_eq, m.length_id, m.isUlid_id, fun c hc => ?_, Mint.id_inj, Mint.id_lt_iff,
    mints.insertionSort fun m n => m.id ≤ n.id, List.perm_insertionSort _ _, ?_, ?_⟩
  · obtain ⟨d, hd, rfl⟩ := m.mem_id hc
    exact mem_alphabet d hd
  · exact List.map_insertionSort _ _ _ _ fun m _ n _ => Iff.rfl
  · refine (List.pairwise_insertionSort (fun m n : Mint => m.id ≤ n.id) mints).imp fun hle => ?_
    exact not_lt.1 fun hlt => hle.not_gt (Mint.id_lt_iff.2 (.inl hlt))

/-- The last id of one millisecond comes before the first of the next. -/
theorem ulid_order_sample :
    let last : Mint := ⟨1000, List.replicate 10 255, by decide, rfl⟩
    let first : Mint := ⟨1001, List.replicate 10 0, by decide, rfl⟩
    last.id < first.id ∧ last.id ≠ first.id ∧ isUlid last.id = true ∧
      ∃ sorted : List Mint, sorted.Perm [first, last] ∧
        sorted.map Mint.id = sortStrings [first.id, last.id] ∧
        sorted.Pairwise fun m n => m.time ≤ n.time := by
  intro last first
  obtain ⟨-, -, hlegal, -, hinj, hlt, hsorted⟩ := ulid_order last first [first, last]
  exact ⟨hlt.2 (.inl (by decide)), fun h => absurd (hinj.1 h).1 (by decide), hlegal, hsorted⟩

end TangentFeed
