import Mathlib.Algebra.Order.Ring.Int

/-!
# Machine words and ways to fail

The program's fixed-width integers are natural numbers reduced at each store, so
every wrap is visible where the source has it. A call that does not return a value
says how it ended.
-/

namespace McmqHost

/-- A store to `uint16_t`. -/
def u16 (value : Nat) : Nat := value % 2 ^ 16

/-- A store to `uint32_t`. -/
def u32 (value : Nat) : Nat := value % 2 ^ 32

/-- A store to `uint64_t` or to `size_t`. -/
def u64 (value : Nat) : Nat := value % 2 ^ 64

/-- Decrement of a `uint32_t`. -/
def pred32 (value : Nat) : Nat := if value = 0 then 2 ^ 32 - 1 else value - 1

theorem u32_of_lt {value : Nat} (fits : value < 2 ^ 32) : u32 value = value := Nat.mod_eq_of_lt fits

theorem u64_of_lt {value : Nat} (fits : value < 2 ^ 64) : u64 value = value := Nat.mod_eq_of_lt fits

theorem pred32_of_pos {value : Nat} (positive : 0 < value) : pred32 value = value - 1 :=
  if_neg (Nat.ne_of_gt positive)

/-- A stored counter forgets only whole wraps. -/
@[simp] theorem u64_u64_add (value more : Nat) : u64 (u64 value + more) = u64 (value + more) := by
  simp only [u64, Nat.mod_add_mod]

@[simp] theorem u64_add_u64 (value more : Nat) : u64 (value + u64 more) = u64 (value + more) := by
  simp only [u64, Nat.add_mod_mod]

/-- `MemorySpace::Address`, a 32-bit device address. -/
abbrev Address := Nat

/-- How a call ends when it does not return. -/
inductive Fault
  /-- The exception `MemorySpace::MemoryNotAvailable`. -/
  | memoryNotAvailable
  /-- A `std::runtime_error` from the link. -/
  | runtimeError
  /-- A call of `abort()`. -/
  | abort
  /-- A failed `assert`. -/
  | assertion
  /-- A null pointer is followed. -/
  | nullPointer
  /-- A remainder by zero. -/
  | divideByZero
  /-- A list walk passes more slots than there are. -/
  | endless
deriving DecidableEq, Repr

/-- A sequence returns when each part does. -/
theorem bind_ok {Error First Last : Type} {first : Except Error First}
    {next : First → Except Error Last} {result : Last} :
    first >>= next = .ok result ↔ ∃ value, first = .ok value ∧ next value = .ok result := by
  cases first with
  | error fault => simp [bind, Except.bind]
  | ok value => simp [bind, Except.bind]

end McmqHost
