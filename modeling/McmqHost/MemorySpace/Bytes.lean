import McmqHost.MemorySpace.Mapping

/-!
# Memory byte by byte

In a mapping that ends in the address space, an access is one of the bytes at its addresses: a read
returns them, and a write changes them and no others.
-/

namespace McmqHost

namespace MemorySpace

variable {space after : MemorySpace}

/-- The mapping begins and ends in the address space. -/
def Narrow (space : MemorySpace) : Prop :=
  space.iovaBase < 2 ^ 32 ∧ space.iovaBase + space.mapSize ≤ 2 ^ 32

/-- The byte at an address. -/
def byteAt (space : MemorySpace) (addr : Nat) : UInt8 :=
  space.map (u32 (addr + 2 ^ 32 - space.iovaBase))

/-- The bytes from an address on. -/
def bytesAt (space : MemorySpace) (addr len : Nat) : List UInt8 :=
  (List.range len).map fun index => space.byteAt (addr + index)

@[simp] theorem length_bytesAt (addr len : Nat) : (space.bytesAt addr len).length = len := by
  simp [bytesAt]

/-- An access that passes its assertion lies in the mapping. -/
theorem translate_inside (narrow : space.Narrow) {addr len offset : Nat} (nonempty : 0 < len)
    (inside : addr + len ≤ 2 ^ 32) (ok : space.translate addr len = .ok offset) :
    space.iovaBase ≤ addr ∧ offset = addr - space.iovaBase ∧ offset + len ≤ space.mapSize := by
  unfold Narrow at narrow
  unfold translate at ok
  simp only at ok
  split at ok
  · rename_i bounds
    obtain rfl := Except.ok.inj ok
    obtain ⟨below, ends⟩ := bounds
    have whole : u64 (u32 (addr + 2 ^ 32 - space.iovaBase) + len) =
        u32 (addr + 2 ^ 32 - space.iovaBase) + len := u64_of_lt (by omega)
    rw [whole] at ends
    unfold u32 at below ends ⊢
    omega
  · contradiction

/-- The byte at an address of the mapping. -/
theorem byteAt_inside {addr : Nat} (above : space.iovaBase ≤ addr) (below : addr < 2 ^ 32) :
    space.byteAt addr = space.map (addr - space.iovaBase) := by
  unfold byteAt u32
  congr 1
  omega

/-- **Reading** returns the bytes at the addresses. -/
theorem read_bytes (narrow : space.Narrow) {addr len : Nat} {bytes : List UInt8}
    (inside : addr + len ≤ 2 ^ 32) (ok : space.read addr len = .ok bytes) :
    bytes = space.bytesAt addr len := by
  obtain ⟨offset, mapped, ok⟩ := bind_ok.mp ok
  obtain rfl := Except.ok.inj ok
  apply List.map_congr_left
  intro index listed
  have below := List.mem_range.mp listed
  obtain ⟨above, rfl, -⟩ := translate_inside narrow (Nat.zero_lt_of_lt below) inside mapped
  rw [byteAt_inside (by omega) (by omega)]
  congr 1
  omega

/-- **Writing** changes the bytes at the addresses, and no others. -/
theorem write_byteAt (narrow : space.Narrow) {addr : Nat} {bytes : List UInt8}
    (inside : addr + bytes.length ≤ 2 ^ 32) (ok : space.write addr bytes = .ok after) {other : Nat}
    (below : other < 2 ^ 32) :
    after.byteAt other =
      if addr ≤ other then bytes.getD (other - addr) (space.byteAt other) else space.byteAt other := by
  obtain ⟨offset, mapped, ok⟩ := bind_ok.mp ok
  obtain rfl := Except.ok.inj ok
  by_cases empty : bytes.length = 0
  · obtain rfl := List.eq_nil_of_length_eq_zero empty
    simp [byteAt]
  obtain ⟨above, rfl, ends⟩ := translate_inside narrow (Nat.pos_of_ne_zero empty) inside mapped
  unfold Narrow at narrow
  by_cases mappedOther : space.iovaBase ≤ other
  · have place : u32 (other + 2 ^ 32 - space.iovaBase) = other - space.iovaBase := by
      unfold u32
      omega
    simp only [byteAt, place]
    by_cases behind : addr ≤ other
    · rw [if_pos behind, if_pos (by omega)]
      congr 1
      omega
    · rw [if_neg behind, if_neg (by omega)]
  · -- below the mapping a byte is taken from behind it
    have place : u32 (other + 2 ^ 32 - space.iovaBase) = other + 2 ^ 32 - space.iovaBase := by
      unfold u32
      omega
    simp only [byteAt, place]
    rw [if_pos (by omega), if_neg (by omega), List.getD_eq_getElem?_getD,
      List.getElem?_eq_none (by omega), Option.getD_none]

/-- A byte that is not written stays. -/
theorem write_apart (narrow : space.Narrow) {addr : Nat} {bytes : List UInt8}
    (inside : addr + bytes.length ≤ 2 ^ 32) (ok : space.write addr bytes = .ok after) {other : Nat}
    (below : other < 2 ^ 32) (apart : other < addr ∨ addr + bytes.length ≤ other) :
    after.byteAt other = space.byteAt other := by
  rw [write_byteAt narrow inside ok below]
  split
  · rw [List.getD_eq_getElem?_getD, List.getElem?_eq_none (by omega), Option.getD_none]
  · rfl

/-- A read returns the same where the bytes are the same. -/
theorem read_same (narrow : space.Narrow) {addr len : Nat} {bytes : List UInt8}
    (base : after.iovaBase = space.iovaBase) (size : after.mapSize = space.mapSize)
    (inside : addr + len ≤ 2 ^ 32) (ok : space.read addr len = .ok bytes)
    (same : ∀ other, addr ≤ other → other < addr + len → after.byteAt other = space.byteAt other) :
    after.read addr len = .ok bytes := by
  have before := read_bytes narrow inside ok
  obtain ⟨offset, mapped, -⟩ := bind_ok.mp ok
  have there : after.translate addr len = .ok offset := by
    rw [translate, base, size]
    exact mapped
  have read : after.read addr len = .ok (after.peek offset len) := read_eq there
  have narrowAfter : after.Narrow := by
    unfold Narrow
    rw [base, size]
    exact narrow
  rw [read, read_bytes narrowAfter inside read, before]
  congr 1
  apply List.map_congr_left
  intro index listed
  have below := List.mem_range.mp listed
  exact same _ (Nat.le_add_right _ _) (Nat.add_lt_add_left below _)

end MemorySpace

end McmqHost
