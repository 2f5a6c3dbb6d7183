import Mathlib.Algebra.Order.Ring.Int
import Mathlib.Data.List.Basic

/-!
# Numbers as bytes

A number is stored as a fixed count of bytes, the least significant one first. What does not fit is
cut off. Numbers on the wire have the most significant byte first.
-/

namespace McmqHost

/-- The bytes of a little-endian value. -/
def leBytes (count value : Nat) : List UInt8 :=
  (List.range count).map fun index => UInt8.ofNat (value / 256 ^ index)

/-- The value of little-endian bytes. -/
def leValue : List UInt8 → Nat
  | [] => 0
  | byte :: rest => byte.toNat + 256 * leValue rest

theorem leBytes_succ (count value : Nat) :
    leBytes (count + 1) value = UInt8.ofNat value :: leBytes count (value / 256) := by
  simp only [leBytes, List.range_succ_eq_map, List.map_cons, List.map_map, Nat.pow_zero, Nat.div_one]
  congr 1
  apply List.map_congr_left
  intro index _
  simp only [Function.comp_apply, Nat.pow_succ', Nat.div_div_eq_div_mul]

@[simp] theorem length_leBytes (count value : Nat) : (leBytes count value).length = count := by
  simp [leBytes]

/-- Little-endian bytes hold the value modulo their range. -/
theorem leValue_leBytes (count value : Nat) : leValue (leBytes count value) = value % 256 ^ count := by
  induction count generalizing value with
  | zero => simp [leBytes, leValue, Nat.mod_one]
  | succ count ih =>
    rw [leBytes_succ, leValue, ih, Nat.pow_succ', Nat.mod_mul, UInt8.toNat_ofNat']

theorem leValue_leBytes_of_lt {count value : Nat} (fits : value < 256 ^ count) :
    leValue (leBytes count value) = value := by
  rw [leValue_leBytes, Nat.mod_eq_of_lt fits]

/-- Storing the value of bytes gives the bytes back. -/
theorem leBytes_leValue (bytes : List UInt8) : leBytes bytes.length (leValue bytes) = bytes := by
  induction bytes with
  | nil => rfl
  | cons byte rest ih =>
    have small := byte.toNat_lt
    have low : UInt8.ofNat (byte.toNat + 256 * leValue rest) = byte := by
      apply UInt8.toNat_inj.mp
      rw [UInt8.toNat_ofNat']
      omega
    have high : (byte.toNat + 256 * leValue rest) / 256 = leValue rest := by omega
    rw [List.length_cons, leBytes_succ, leValue, low, high, ih]

/-- Storing cuts off what does not fit. -/
theorem leBytes_mod (count value : Nat) : leBytes count (value % 256 ^ count) = leBytes count value := by
  have stored := leBytes_leValue (leBytes count value)
  rwa [length_leBytes, leValue_leBytes] at stored

/-- The bytes of a big-endian value. -/
def beBytes (count value : Nat) : List UInt8 := (leBytes count value).reverse

/-- The value of big-endian bytes. -/
def beValue (bytes : List UInt8) : Nat := leValue bytes.reverse

@[simp] theorem length_beBytes (count value : Nat) : (beBytes count value).length = count := by
  simp [beBytes]

/-- Big-endian bytes hold the value modulo their range. -/
theorem beValue_beBytes (count value : Nat) : beValue (beBytes count value) = value % 256 ^ count := by
  rw [beValue, beBytes, List.reverse_reverse, leValue_leBytes]

theorem beValue_beBytes_of_lt {count value : Nat} (fits : value < 256 ^ count) :
    beValue (beBytes count value) = value := by
  rw [beValue_beBytes, Nat.mod_eq_of_lt fits]

/-- Storing cuts off what does not fit. -/
theorem beBytes_mod (count value : Nat) : beBytes count (value % 256 ^ count) = beBytes count value := by
  rw [beBytes, leBytes_mod, beBytes]

/-- The last bytes of a little-endian value are those of its quotient. -/
theorem leBytes_add (high low value : Nat) :
    leBytes (high + low) value = leBytes low value ++ leBytes high (value / 256 ^ low) := by
  induction low generalizing value with
  | zero => simp [leBytes]
  | succ low ih =>
    rw [← Nat.add_assoc, leBytes_succ, ih, leBytes_succ, List.cons_append, Nat.div_div_eq_div_mul,
      Nat.pow_succ']

/-- The leading bytes of a value are those of its quotient. -/
theorem beBytes_add (high low value : Nat) :
    beBytes (high + low) value = beBytes high (value / 256 ^ low) ++ beBytes low value := by
  rw [beBytes, leBytes_add, List.reverse_append]
  rfl

end McmqHost
