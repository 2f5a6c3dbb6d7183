import McmqHost.Driver.Prp

/-!
# Walking the physical region pages

The device reads a command's regions as the format prescribes: the first one reaches to the end
of its page; the second one is another page, or a list page whose last entry leads to the next
list page while more than one entry is left. What it reads there is the buffer as long as
one list page is enough: the loop of `setup_buffer` keeps its index when it moves on to
another list page, so that the entries after the first are written behind that page.
-/

namespace McmqHost

/-- Entries of a list page. -/
def listEntries : Nat := 512

namespace Prps

/-- The device reads list entries from an index on, `left` bytes being undescribed: the addresses of
the data and the list pages read. The first argument bounds the entries to read. -/
def walkList (space : MemorySpace) : Nat → Nat → Nat → Nat → Except Fault (List Nat × List Address)
  | 0, _, _, _ => throw .endless
  | fuel + 1, page, i, left => do
    let entry ← space.read (page + i * 8) 8
    if i + 1 = listEntries ∧ ctrlPageSize < left then do
      let (addresses, pages) ← walkList space fuel (leValue entry) 0 left
      pure (addresses, page :: pages)
    else if left ≤ ctrlPageSize then pure (List.range' (leValue entry) left, [page])
    else do
      let (addresses, pages) ← walkList space fuel page (i + 1) (left - ctrlPageSize)
      pure (List.range' (leValue entry) ctrlPageSize ++ addresses, page :: pages)

section Entries

variable {space : MemorySpace} {fuel page i left : Nat} {entry : List UInt8}

/-- The last entry describes the bytes left. -/
theorem walkList_last (read : space.read (page + i * 8) 8 = .ok entry) (short : left ≤ ctrlPageSize) :
    walkList space (fuel + 1) page i left = .ok (List.range' (leValue entry) left, [page]) := by
  have notLink : ¬ (i + 1 = listEntries ∧ ctrlPageSize < left) :=
    fun link => Nat.not_lt_of_le short link.2
  refine bind_ok.mpr ⟨entry, read, ?_⟩
  rw [if_neg notLink, if_pos short]
  rfl

/-- Any other entry describes a page, except that the last one of a list page leads to the next. -/
theorem walkList_page {result : List Nat × List Address}
    (read : space.read (page + i * 8) 8 = .ok entry) (long : ctrlPageSize < left)
    (inside : i + 1 ≠ listEntries) :
    walkList space (fuel + 1) page i left = .ok result ↔ ∃ addresses pages,
      walkList space fuel page (i + 1) (left - ctrlPageSize) = .ok (addresses, pages) ∧
      result = (List.range' (leValue entry) ctrlPageSize ++ addresses, page :: pages) := by
  have notLink : ¬ (i + 1 = listEntries ∧ ctrlPageSize < left) := fun link => inside link.1
  rw [walkList, read]
  constructor
  · intro ok
    obtain ⟨_, same, ok⟩ := bind_ok.mp ok
    obtain rfl := Except.ok.inj same
    rw [if_neg notLink, if_neg (Nat.not_le_of_lt long)] at ok
    obtain ⟨⟨addresses, pages⟩, walked, ok⟩ := bind_ok.mp ok
    exact ⟨addresses, pages, walked, (Except.ok.inj ok).symm⟩
  · rintro ⟨addresses, pages, walked, rfl⟩
    refine bind_ok.mpr ⟨entry, rfl, ?_⟩
    rw [if_neg notLink, if_neg (Nat.not_le_of_lt long)]
    exact bind_ok.mpr ⟨(addresses, pages), walked, rfl⟩

/-- The last entry of a full list page leads to the next list page. -/
theorem walkList_link {result : List Nat × List Address}
    (read : space.read (page + i * 8) 8 = .ok entry) (long : ctrlPageSize < left)
    (full : i + 1 = listEntries) :
    walkList space (fuel + 1) page i left = .ok result ↔ ∃ addresses pages,
      walkList space fuel (leValue entry) 0 left = .ok (addresses, pages) ∧
      result = (addresses, page :: pages) := by
  rw [walkList, read]
  constructor
  · intro ok
    obtain ⟨_, same, ok⟩ := bind_ok.mp ok
    obtain rfl := Except.ok.inj same
    rw [if_pos ⟨full, long⟩] at ok
    obtain ⟨⟨addresses, pages⟩, walked, ok⟩ := bind_ok.mp ok
    exact ⟨addresses, pages, walked, (Except.ok.inj ok).symm⟩
  · rintro ⟨addresses, pages, walked, rfl⟩
    refine bind_ok.mpr ⟨entry, rfl, ?_⟩
    rw [if_pos ⟨full, long⟩]
    exact bind_ok.mpr ⟨(addresses, pages), walked, rfl⟩

end Entries

/-- The addresses that a command's regions describe, and the list pages read on the way. -/
def walk (prps : Prps) (fuel buflen : Nat) : Except Fault (List Nat × List Address) :=
  let first := ctrlPageSize - prps.prp1 % ctrlPageSize
  if buflen ≤ first then pure (List.range' prps.prp1 buflen, [])
  else if buflen - first ≤ ctrlPageSize then
    pure (List.range' prps.prp1 first ++ List.range' prps.prp2 (buflen - first), [])
  else do
    let (addresses, pages) ← walkList prps.space fuel prps.prp2 0 (buflen - first)
    pure (List.range' prps.prp1 first ++ addresses, pages)

/-- A walk of a list goes over as many bytes as are left. -/
theorem length_walkList {space : MemorySpace} {fuel page i left : Nat} {addresses : List Nat}
    {pages : List Address} (walked : walkList space fuel page i left = .ok (addresses, pages)) :
    addresses.length = left := by
  induction fuel generalizing page i left addresses pages with
  | zero => cases walked
  | succ fuel ih =>
    obtain ⟨entry, read, -⟩ := bind_ok.mp walked
    by_cases last : left ≤ ctrlPageSize
    · rw [walkList_last read last] at walked
      cases walked
      exact List.length_range'
    · have long := Nat.lt_of_not_le last
      by_cases full : i + 1 = listEntries
      · obtain ⟨_, _, rest, same⟩ := (walkList_link read long full).mp walked
        cases same
        exact ih rest
      · obtain ⟨_, _, rest, same⟩ := (walkList_page read long full).mp walked
        cases same
        rw [List.length_append, List.length_range', ih rest]
        exact Nat.add_sub_cancel' (Nat.le_of_lt long)

/-- A walk of the regions goes over as many bytes as it was asked for. -/
theorem length_walk {prps : Prps} {fuel buflen : Nat} {addresses : List Nat}
    {pages : List Address} (walked : prps.walk fuel buflen = .ok (addresses, pages)) :
    addresses.length = buflen := by
  simp only [walk] at walked
  split at walked
  · cases walked
    exact List.length_range'
  · split at walked
    · cases walked
      rw [List.length_append, List.length_range', List.length_range']
      omega
    · obtain ⟨⟨others, _⟩, inner, walked⟩ := bind_ok.mp walked
      cases walked
      rw [List.length_append, List.length_range', length_walkList inner]
      omega

/-- The regions describe exactly the buffer, byte by byte, through list pages of the command. -/
def Exact (prps : Prps) (buf buflen : Nat) : Prop :=
  ∃ fuel pages, prps.walk fuel buflen = .ok (List.range' buf buflen, pages) ∧
    ∀ page ∈ pages, page ∈ prps.prpLists

end Prps

namespace MemorySpace

variable {space after : MemorySpace}

/-- Addresses are taken modulo 2^32. -/
theorem translate_u32 (base : space.iovaBase ≤ 2 ^ 32) (addr len : Nat) :
    space.translate (u32 addr) len = space.translate addr len := by
  have same : u32 (u32 addr + 2 ^ 32 - space.iovaBase) = u32 (addr + 2 ^ 32 - space.iovaBase) := by
    unfold u32
    omega
  unfold translate
  simp only [same]

theorem read_u32 (base : space.iovaBase ≤ 2 ^ 32) (addr len : Nat) :
    space.read (u32 addr) len = space.read addr len := by
  rw [read, read, translate_u32 base]

/-- What is written can be read back. -/
theorem read_written {addr : Nat} {bytes : List UInt8} (ok : space.write addr bytes = .ok after) :
    after.read addr bytes.length = .ok bytes := by
  obtain ⟨offset, mapped, -⟩ := bind_ok.mp ok
  have there : after.translate addr bytes.length = .ok offset := by
    rw [(frame_write ok).translate, mapped]
  rw [read_eq there, peek_written mapped ok]

/-- Two entries of one page lie apart in the mapping. -/
theorem entries_apart {page i j first second : Nat}
    (addressable : space.iovaBase < 2 ^ 32) (differ : i ≠ j)
    (iInside : i < listEntries) (jInside : j < listEntries)
    (one : space.translate (u32 (page + i * 8)) 8 = .ok first)
    (other : space.translate (u32 (page + j * 8)) 8 = .ok second) :
    first + 8 ≤ second ∨ second + 8 ≤ first := by
  unfold translate at one other
  simp only at one other
  split at one
  · split at other
    · obtain rfl := Except.ok.inj one
      obtain rfl := Except.ok.inj other
      unfold listEntries at iInside jInside
      unfold u32 u64 at *
      omega
    · cases other
  · cases one

/-- Writing one entry of a page leaves the others. -/
theorem read_entry_apart {page i j : Nat} {entry bytes : List UInt8}
    (addressable : space.iovaBase < 2 ^ 32) (differ : i ≠ j)
    (iInside : i < listEntries) (jInside : j < listEntries) (length : bytes.length = 8)
    (ok : space.write (u32 (page + i * 8)) bytes = .ok after)
    (before : space.read (u32 (page + j * 8)) 8 = .ok entry) :
    after.read (u32 (page + j * 8)) 8 = .ok entry := by
  obtain ⟨first, mapped, -⟩ := bind_ok.mp ok
  obtain ⟨second, there, -⟩ := bind_ok.mp before
  have apart := entries_apart addressable differ iInside jInside (length ▸ mapped) there
  have after_there : after.translate (u32 (page + j * 8)) 8 = .ok second := by
    rw [(frame_write ok).translate, there]
  rw [read_eq there] at before
  rw [read_eq after_there, peek_apart mapped ok (by omega), before]

end MemorySpace

namespace Prps

section Single

variable {space filled : MemorySpace} {prpLists lists : List Address}

/-- A list page is kept unless the index is that of a full one. -/
theorem currentList_same {prpList i : Nat} (differ : i ≠ listEntries) :
    currentList space prpLists prpList i = .ok (prpList, prpLists, space) := by
  have other : i ≠ ctrlPageSize >>> 3 := differ
  rw [currentList, if_neg other]
  rfl

/-- While one list page is enough, the loop writes one entry for each page of the buffer and leaves
those before. -/
theorem fill_single {fuel prpList i buf left : Nat}
    (addressable : space.iovaBase < 2 ^ 32) (nonempty : 0 < left)
    (enough : left ≤ (listEntries - i) * ctrlPageSize) (fits : buf + left ≤ 2 ^ 32)
    (ok : fill fuel space prpLists prpList i buf left = .ok (filled, lists)) :
    lists = prpLists ∧ filled.SameFrame space ∧
      (∀ later, later * ctrlPageSize < left → filled.read (u32 (prpList + (i + later) * 8)) 8 =
        .ok (leBytes 8 (buf + later * ctrlPageSize))) ∧
      ∀ earlier entry, earlier < i → space.read (u32 (prpList + earlier * 8)) 8 = .ok entry →
        filled.read (u32 (prpList + earlier * 8)) 8 = .ok entry := by
  induction fuel generalizing space i buf left with
  | zero => cases ok
  | succ fuel ih =>
    have inside : i < listEntries := by
      by_contra beyond
      rw [Nat.sub_eq_zero_of_le (Nat.le_of_not_lt beyond), Nat.zero_mul] at enough
      omega
    rw [fill, currentList_same (Nat.ne_of_lt inside)] at ok
    obtain ⟨_, entered, ok⟩ := bind_ok.mp ok
    cases entered
    obtain ⟨written, wrote, ok⟩ := bind_ok.mp ok
    have frame := MemorySpace.frame_write wrote
    have here := MemorySpace.read_written wrote
    rw [length_leBytes] at here
    have kept : ∀ earlier entry, earlier < i →
        space.read (u32 (prpList + earlier * 8)) 8 = .ok entry →
        written.read (u32 (prpList + earlier * 8)) 8 = .ok entry := by
      intro earlier entry before read
      exact MemorySpace.read_entry_apart addressable (Nat.ne_of_gt before) inside (by omega)
        (length_leBytes 8 buf) wrote read
    by_cases last : left ≤ ctrlPageSize
    · rw [if_pos last] at ok
      cases ok
      refine ⟨rfl, frame, ?_, kept⟩
      intro later within
      obtain rfl : later = 0 := by
        unfold ctrlPageSize at last within
        omega
      rw [Nat.add_zero, Nat.zero_mul, Nat.add_zero]
      exact here
    · rw [if_neg last] at ok
      unfold ctrlPageSize at last enough
      have next : u32 (buf + ctrlPageSize) = buf + ctrlPageSize := by
        unfold ctrlPageSize
        exact u32_of_lt (by omega)
      rw [next] at ok
      have base : written.iovaBase < 2 ^ 32 := by
        rw [frame.iovaBase]
        exact addressable
      have more : 0 < left - ctrlPageSize := by
        unfold ctrlPageSize
        omega
      have room : left - ctrlPageSize ≤ (listEntries - (i + 1)) * ctrlPageSize := by
        unfold ctrlPageSize listEntries at *
        omega
      have ends : buf + ctrlPageSize + (left - ctrlPageSize) ≤ 2 ^ 32 := by
        unfold ctrlPageSize
        omega
      obtain ⟨same, frameOn, entries, before⟩ := ih base more room ends ok
      refine ⟨same, frameOn.trans frame, ?_, ?_⟩
      · intro later within
        cases later with
        | zero =>
          rw [Nat.add_zero, Nat.zero_mul, Nat.add_zero]
          exact before i _ (Nat.lt_succ_self i) here
        | succ later =>
          have entry := entries later (by rw [Nat.add_one_mul] at within; omega)
          rw [show i + 1 + later = i + (later + 1) by omega, Nat.add_assoc buf,
            ← Nat.add_comm (later * ctrlPageSize), ← Nat.add_one_mul] at entry
          exact entry
      · intro earlier entry earlierInside read
        exact before earlier entry (Nat.lt_succ_of_lt earlierInside)
          (kept earlier entry earlierInside read)

/-- An entry holds an address of the address space in full. -/
theorem leValue_address {address : Nat} (fits : address < 2 ^ 32) :
    leValue (leBytes 8 address) = address := by
  rw [leValue_leBytes]
  exact Nat.mod_eq_of_lt (Nat.lt_trans fits (by decide))

/-- The device reads such a list page as the buffer. -/
theorem walkList_single {more page i buf left : Nat} (base : space.iovaBase ≤ 2 ^ 32)
    (nonempty : 0 < left) (count : left ≤ (more + 1) * ctrlPageSize)
    (enough : left ≤ (listEntries - i) * ctrlPageSize) (fits : buf + left ≤ 2 ^ 32)
    (entries : ∀ later, later * ctrlPageSize < left → space.read (u32 (page + (i + later) * 8)) 8 =
      .ok (leBytes 8 (buf + later * ctrlPageSize))) :
    ∃ pages, walkList space (more + 1) page i left = .ok (List.range' buf left, pages) ∧
      ∀ other ∈ pages, other = page := by
  induction more generalizing i buf left with
  | zero =>
    rw [Nat.zero_add, Nat.one_mul] at count
    have entry := entries 0 (by omega)
    rw [Nat.zero_mul, Nat.add_zero, Nat.add_zero, MemorySpace.read_u32 base] at entry
    refine ⟨[page], ?_, fun other listed => List.mem_singleton.mp listed⟩
    rw [walkList_last entry count, leValue_address (by omega)]
  | succ more ih =>
    have entry := entries 0 (by omega)
    rw [Nat.zero_mul, Nat.add_zero, Nat.add_zero, MemorySpace.read_u32 base] at entry
    have address : leValue (leBytes 8 buf) = buf := leValue_address (by omega)
    by_cases last : left ≤ ctrlPageSize
    · refine ⟨[page], ?_, fun other listed => List.mem_singleton.mp listed⟩
      rw [walkList_last entry last, address]
    · have notFull : i + 1 ≠ listEntries := by
        intro full
        rw [← full, Nat.add_sub_cancel_left, Nat.one_mul] at enough
        exact last enough
      have rest : (more + 1 + 1) * ctrlPageSize = (more + 1) * ctrlPageSize + ctrlPageSize :=
        Nat.add_one_mul _ _
      have later : ∀ later, later * ctrlPageSize < left - ctrlPageSize →
          space.read (u32 (page + (i + 1 + later) * 8)) 8 =
            .ok (leBytes 8 (buf + ctrlPageSize + later * ctrlPageSize)) := by
        intro later within
        have entry := entries (later + 1) (by rw [Nat.add_one_mul]; omega)
        rw [Nat.add_one_mul, Nat.add_comm (later * ctrlPageSize), ← Nat.add_assoc buf] at entry
        rw [show i + 1 + later = i + (later + 1) by omega]
        exact entry
      have more : 0 < left - ctrlPageSize := by omega
      have room : left - ctrlPageSize ≤ (listEntries - (i + 1)) * ctrlPageSize := by
        unfold ctrlPageSize listEntries at *
        omega
      have ends : buf + ctrlPageSize + (left - ctrlPageSize) ≤ 2 ^ 32 := by omega
      obtain ⟨pages, walked, same⟩ := ih more (by omega) room ends later
      refine ⟨page :: pages, ?_, ?_⟩
      · refine (walkList_page entry (Nat.lt_of_not_le last) notFull).mpr ⟨_, pages, walked, ?_⟩
        rw [address, List.range'_append_1, Nat.add_sub_cancel' (by omega)]
      · intro other listed
        obtain rfl | listed := List.mem_cons.mp listed
        · rfl
        · exact same other listed

end Single

/-- A buffer whose list fits one page is described exactly. -/
theorem exact_single {space : MemorySpace} {prps : Prps} {buf buflen : Nat}
    (addressable : space.iovaBase < 2 ^ 32) (fits : buf + buflen ≤ 2 ^ 32)
    (enough : buf % ctrlPageSize + buflen ≤ ctrlPageSize + listEntries * ctrlPageSize)
    (ok : setupBuffer space buf buflen = .ok prps) : prps.Exact buf buflen := by
  have below : buf % ctrlPageSize < ctrlPageSize := Nat.mod_lt _ (by decide)
  have sum : u64 (buf % ctrlPageSize + buflen) = buf % ctrlPageSize + buflen := by
    have small : buf % ctrlPageSize ≤ buf := Nat.mod_le _ _
    exact u64_of_lt (by omega)
  simp only [setupBuffer, sum] at ok
  split at ok
  · rename_i short
    cases ok
    refine ⟨0, [], ?_, by simp⟩
    unfold walk
    simp only
    split
    · rfl
    · rename_i more
      rw [if_pos (by omega), if_pos (by omega), u32_of_lt (by omega), List.range'_append_1,
        Nat.add_sub_cancel' (by omega)]
      rfl
  · rename_i long
    obtain ⟨⟨prpList, grown⟩, gave, ok⟩ := bind_ok.mp ok
    obtain ⟨⟨filled, prpLists⟩, ran, ok⟩ := bind_ok.mp ok
    cases ok
    obtain ⟨base, -⟩ := MemorySpace.mapping_allocatePages gave
    have next : u32 (buf + (ctrlPageSize - buf % ctrlPageSize)) =
        buf + (ctrlPageSize - buf % ctrlPageSize) := u32_of_lt (by omega)
    simp only [next] at ran
    have sizes : grown.iovaBase < 2 ^ 32 := by
      rw [base]
      exact addressable
    obtain ⟨same, frame, entries, -⟩ := fill_single sizes (by omega)
      (by rw [Nat.sub_zero]; omega) (by omega) ran
    simp only [Nat.zero_add] at entries
    have filledBase : filled.iovaBase ≤ 2 ^ 32 := by
      rw [frame.iovaBase, base]
      omega
    have count : buflen - (ctrlPageSize - buf % ctrlPageSize) ≤
        ((buflen - (ctrlPageSize - buf % ctrlPageSize)) / ctrlPageSize + 1) * ctrlPageSize := by
      have split := Nat.lt_div_mul_add (a := buflen - (ctrlPageSize - buf % ctrlPageSize))
        (b := ctrlPageSize) (by decide)
      rw [Nat.add_one_mul]
      exact split.le
    have more : 0 < buflen - (ctrlPageSize - buf % ctrlPageSize) := by omega
    have room : buflen - (ctrlPageSize - buf % ctrlPageSize) ≤ (listEntries - 0) * ctrlPageSize := by
      rw [Nat.sub_zero]
      omega
    have ends : buf + (ctrlPageSize - buf % ctrlPageSize) +
        (buflen - (ctrlPageSize - buf % ctrlPageSize)) ≤ 2 ^ 32 := by omega
    obtain ⟨pages, walked, only⟩ := walkList_single filledBase more count room ends
      (by simpa only [Nat.zero_add] using entries)
    refine ⟨(buflen - (ctrlPageSize - buf % ctrlPageSize)) / ctrlPageSize + 1, pages, ?_, ?_⟩
    · unfold walk
      simp only
      rw [if_neg (by omega), if_neg (by omega)]
      refine bind_ok.mpr ⟨_, walked, ?_⟩
      simp only [pure, Except.pure]
      rw [List.range'_append_1, Nat.add_sub_cancel' (by omega)]
    · intro page listed
      rw [only page listed, same]
      exact List.mem_singleton_self prpList

/-! ## More than one list page -/

section Chained

variable {space filled : MemorySpace} {prpLists lists : List Address}

/-- A space that maps the whole address space. -/
structure Whole (space : MemorySpace) : Prop where
  /-- The mapping begins at zero. -/
  base : space.iovaBase = 0
  /-- It holds all addresses. -/
  size : space.mapSize = 2 ^ 32

/-- Every write ends well in such a space, and it stays one. -/
theorem Whole.write (whole : Whole space) (addr : Nat) (bytes : List UInt8) (nonempty : bytes ≠ [])
    (inside : addr + bytes.length ≤ 2 ^ 32) : ∃ after, space.write addr bytes = .ok after ∧
      Whole after ∧ after.table = space.table ∧
      space.translate addr bytes.length = .ok addr := by
  have there : space.translate addr bytes.length = .ok addr := by
    apply MemorySpace.translate_zero whole.base whole.size.le
    · rw [whole.size]
      exact inside
    · exact List.length_pos_iff.mpr nonempty
  obtain ⟨after, wrote⟩ := (MemorySpace.accesses_of_translate there).2.1 bytes rfl
  have frame := MemorySpace.frame_write wrote
  exact ⟨after, wrote, ⟨frame.iovaBase.trans whole.base, frame.mapSize.trans whole.size⟩,
    frame.table, there⟩

/-- The loop goes on behind an entry. -/
theorem fill_next {fuel prpList i buf left current : Nat} {chained written : MemorySpace}
    {grown : List Address} {result : MemorySpace × List Address}
    (entered : currentList space prpLists prpList i = .ok (current, grown, chained))
    (wrote : chained.write (u32 (current + i * 8)) (leBytes 8 buf) = .ok written)
    (more : ctrlPageSize < left)
    (rest : fill fuel written grown current (i + 1) (u32 (buf + ctrlPageSize))
      (left - ctrlPageSize) = .ok result) :
    fill (fuel + 1) space prpLists prpList i buf left = .ok result := by
  refine bind_ok.mpr ⟨_, entered, bind_ok.mpr ⟨written, wrote, ?_⟩⟩
  rw [if_neg (Nat.not_le_of_lt more)]
  exact rest

/-- The loop ends with the entry that describes the bytes left. -/
theorem fill_last {fuel prpList i buf left current : Nat} {chained written : MemorySpace}
    {grown : List Address}
    (entered : currentList space prpLists prpList i = .ok (current, grown, chained))
    (wrote : chained.write (u32 (current + i * 8)) (leBytes 8 buf) = .ok written)
    (last : left ≤ ctrlPageSize) :
    fill (fuel + 1) space prpLists prpList i buf left = .ok (written, grown) := by
  refine bind_ok.mpr ⟨_, entered, bind_ok.mpr ⟨written, wrote, ?_⟩⟩
  rw [if_pos last]
  rfl

/-- Behind its second list page the loop leaves the first two list pages alone. -/
theorem fill_behind {fuel i buf left : Nat} (whole : Whole space) (beyond : listEntries < i)
    (inside : i + left / ctrlPageSize < 2 ^ 28) (enough : left / ctrlPageSize < fuel) :
    ∃ filled, fill fuel space prpLists 0x2000 i buf left = .ok (filled, prpLists) ∧
      Whole filled ∧ ∀ start len, start + len ≤ 0x3000 → filled.peek start len = space.peek start len := by
  induction fuel generalizing space i buf left with
  | zero => exact absurd enough (Nat.not_lt_zero _)
  | succ fuel ih =>
    unfold listEntries at beyond
    have pages := Nat.zero_le (left / ctrlPageSize)
    have same : currentList space prpLists 0x2000 i = .ok (0x2000, prpLists, space) :=
      currentList_same (Nat.ne_of_gt beyond)
    have address : u32 (0x2000 + i * 8) = 0x2000 + i * 8 := u32_of_lt (by omega)
    obtain ⟨written, wrote, next, -, there⟩ := whole.write (0x2000 + i * 8) (leBytes 8 buf)
      (by simp [← List.length_pos_iff]) (by rw [length_leBytes]; omega)
    have kept : ∀ start len, start + len ≤ 0x3000 →
        written.peek start len = space.peek start len :=
      fun start len below => MemorySpace.peek_apart there wrote (by omega)
    rw [← address] at wrote
    by_cases last : left ≤ ctrlPageSize
    · exact ⟨written, fill_last same wrote last, next, kept⟩
    · have fewer := Nat.sub_mul_div left ctrlPageSize 1
      rw [Nat.mul_one] at fewer
      have one : 1 ≤ left / ctrlPageSize :=
        (Nat.one_le_div_iff (by decide)).mpr (Nat.le_of_not_le last)
      have behind : listEntries < i + 1 := by
        unfold listEntries
        omega
      have within : i + 1 + (left - ctrlPageSize) / ctrlPageSize < 2 ^ 28 := by omega
      have fuelled : (left - ctrlPageSize) / ctrlPageSize < fuel := by omega
      obtain ⟨filled, ran, wide, still⟩ := ih next behind within fuelled
      exact ⟨filled, fill_next same wrote (Nat.lt_of_not_le last) ran, wide,
        fun start len below => (still start len below).trans (kept start len below)⟩

/-- The address space behind the first list page is free, and blank where the second entry of the
second list page will be. -/
structure Begun (space : MemorySpace) : Prop extends Whole space where
  /-- The second list page is the next one to be allocated. -/
  hole : space.table.Holds [⟨0x2000, 2 ^ 32 - 0x2000⟩]
  /-- Nothing is written at its second entry. -/
  blank : space.peek 0x2008 8 = List.replicate 8 0

/-- The first list page leads to the second one, whose second entry is blank. -/
structure Broken (space : MemorySpace) : Prop extends Whole space where
  /-- The last entry of the first list page. -/
  link : space.peek 0x1ff8 8 = leBytes 8 0x2000
  /-- The second entry of the second list page. -/
  blank : space.peek 0x2008 8 = List.replicate 8 0

/-- When the first list page is full, the loop goes on behind the second one. -/
theorem fill_full {fuel buf left : Nat} (begun : Begun space)
    (small : left / ctrlPageSize < 2 ^ 27) (enough : left / ctrlPageSize < fuel) :
    ∃ filled, fill fuel space prpLists 0x1000 listEntries buf left =
      .ok (filled, prpLists ++ [0x2000]) ∧ Broken filled := by
  obtain ⟨fuel, rfl⟩ := Nat.exists_eq_succ_of_ne_zero (Nat.ne_of_gt (Nat.zero_lt_of_lt enough))
  have page : HoleTable.roundupPage ctrlPageSize = 1 * 0x1000 := rfl
  obtain ⟨table, gave, -⟩ := MemorySpace.allocatePages_single begun.hole (le_refl _) (by decide)
    (by decide) page (by decide)
  have wide : Whole { space with table := table } := ⟨begun.base, begun.size⟩
  have inside : 0x1ff8 + 8 ≤ space.mapSize := by
    rw [begun.size]
    decide
  have there : MemorySpace.translate { space with table := table } 0x1ff8 8 = .ok 0x1ff8 :=
    MemorySpace.translate_zero wide.base wide.size.le inside (by decide)
  have read := MemorySpace.read_eq there
  generalize entryEq : MemorySpace.peek { space with table := table } 0x1ff8 8 = entry at read
  have length : entry.length = 8 := by
    rw [← entryEq]
    simp [MemorySpace.peek]
  have nonempty : entry ≠ [] := by
    rw [← List.length_pos_iff, length]
    decide
  obtain ⟨moved, wroteFirst, wide, -, there⟩ := wide.write 0x2000 entry nonempty (by omega)
  have blank : moved.peek 0x2008 8 = MemorySpace.peek { space with table := table } 0x2008 8 :=
    MemorySpace.peek_apart there wroteFirst (by omega)
  obtain ⟨linked, wroteLink, wide, -, there⟩ := wide.write 0x1ff8 (leBytes 8 0x2000) (by decide)
    (by decide)
  have link := MemorySpace.peek_written there wroteLink
  have blank : linked.peek 0x2008 8 = space.peek 0x2008 8 :=
    (MemorySpace.peek_apart there wroteLink (by rw [length_leBytes]; omega)).trans blank
  have last : u32 (0x1000 + (listEntries - 1) * 8) = 0x1ff8 := by decide
  have entered : currentList space prpLists 0x1000 listEntries =
      .ok (0x2000, prpLists ++ [0x2000], linked) := by
    have full : listEntries = ctrlPageSize >>> 3 := rfl
    rw [currentList, if_pos full, last]
    exact bind_ok.mpr ⟨_, gave, bind_ok.mpr ⟨entry, read, bind_ok.mpr ⟨moved, wroteFirst,
      bind_ok.mpr ⟨linked, wroteLink, rfl⟩⟩⟩⟩
  -- the entry with the kept index lies behind the second list page
  have behind : u32 (0x2000 + listEntries * 8) = 0x3000 := by decide
  obtain ⟨written, wrote, wide, -, there⟩ := wide.write 0x3000 (leBytes 8 buf)
    (by simp [← List.length_pos_iff]) (by rw [length_leBytes]; decide)
  have kept : Broken written := by
    refine ⟨wide, ?_, ?_⟩
    · rw [MemorySpace.peek_apart there wrote (by omega)]
      exact link
    · rw [MemorySpace.peek_apart there wrote (by omega)]
      exact blank.trans begun.blank
  rw [← behind] at wrote
  by_cases short : left ≤ ctrlPageSize
  · exact ⟨written, fill_last entered wrote short, kept⟩
  · have fewer := Nat.sub_mul_div left ctrlPageSize 1
    rw [Nat.mul_one] at fewer
    have one : 1 ≤ left / ctrlPageSize :=
      (Nat.one_le_div_iff (by decide)).mpr (Nat.le_of_not_le short)
    have within : listEntries + 1 + (left - ctrlPageSize) / ctrlPageSize < 2 ^ 28 := by
      unfold listEntries
      omega
    have fuelled : (left - ctrlPageSize) / ctrlPageSize < fuel := by omega
    obtain ⟨filled, ran, wide, same⟩ := fill_behind wide (Nat.lt_succ_self _) within fuelled
    refine ⟨filled, fill_next entered wrote (Nat.lt_of_not_le short) ran, ?_⟩
    exact ⟨wide, (same _ _ (by decide)).trans kept.link,
      (same _ _ (by decide)).trans kept.blank⟩

/-- So it does when the list page gets full. -/
theorem fill_chained {rest fuel i buf left : Nat} (begun : Begun space)
    (distance : i + rest = listEntries) (small : left / ctrlPageSize < 2 ^ 27)
    (long : rest * ctrlPageSize < left) (enough : left / ctrlPageSize < fuel) :
    ∃ filled, fill fuel space prpLists 0x1000 i buf left =
      .ok (filled, prpLists ++ [0x2000]) ∧ Broken filled := by
  induction rest generalizing space fuel i buf left with
  | zero =>
    obtain rfl : i = listEntries := distance
    exact fill_full begun small enough
  | succ rest ih =>
    unfold listEntries at distance
    have other : i ≠ listEntries := by
      unfold listEntries
      omega
    have same : currentList space prpLists 0x1000 i = .ok (0x1000, prpLists, space) :=
      currentList_same other
    have address : u32 (0x1000 + i * 8) = 0x1000 + i * 8 := u32_of_lt (by omega)
    obtain ⟨written, wrote, wide, table, there⟩ := begun.toWhole.write (0x1000 + i * 8)
      (leBytes 8 buf) (by simp [← List.length_pos_iff]) (by rw [length_leBytes]; omega)
    rw [length_leBytes] at there
    have blank : written.peek 0x2008 8 = space.peek 0x2008 8 :=
      MemorySpace.peek_apart there wrote (by rw [length_leBytes]; omega)
    have next : Begun written :=
      ⟨wide, by rw [table]; exact begun.hole, blank.trans begun.blank⟩
    rw [← address] at wrote
    rw [Nat.add_one_mul] at long
    have pages := Nat.zero_le (rest * ctrlPageSize)
    have fewer := Nat.sub_mul_div left ctrlPageSize 1
    rw [Nat.mul_one] at fewer
    have one : 1 ≤ left / ctrlPageSize := (Nat.one_le_div_iff (by decide)).mpr (by omega)
    obtain ⟨fuel, rfl⟩ := Nat.exists_eq_succ_of_ne_zero (Nat.ne_of_gt (Nat.zero_lt_of_lt enough))
    have nearer : i + 1 + rest = listEntries := by
      unfold listEntries
      omega
    have few : (left - ctrlPageSize) / ctrlPageSize < 2 ^ 27 := by omega
    have longer : rest * ctrlPageSize < left - ctrlPageSize := by omega
    have fuelled : (left - ctrlPageSize) / ctrlPageSize < fuel := by omega
    obtain ⟨filled, ran, broken⟩ := ih next nearer few longer fuelled
    exact ⟨filled, fill_next same wrote (by omega) ran, broken⟩

/-- In a fresh space that is blank, a list that needs a second page is broken. -/
theorem setupBuffer_chained {buf buflen : Nat} (fits : buf + buflen ≤ 2 ^ 32)
    (long : ctrlPageSize + listEntries * ctrlPageSize < buf % ctrlPageSize + buflen) :
    ∃ space prps, space.iovaBase = 0 ∧
      setupBuffer space buf buflen = .ok prps ∧ prps.prp1 = buf ∧ prps.prp2 = 0x1000 ∧
      Broken prps.space := by
  have region : HoleTable.Region 0x1000 (0x1000 + (2 ^ 32 - 0x1000)) := ⟨by omega, by omega⟩
  obtain ⟨table, -, sound⟩ := HoleTable.Sound.start_ok region (by omega)
  have page : HoleTable.roundupPage ctrlPageSize = 1 * 0x1000 := rfl
  let fresh : MemorySpace := ⟨table, fun _ => 0, 2 ^ 32, 0⟩
  have whole : fresh.table.Holds [⟨0x1000, 2 ^ 32 - 0x1000⟩] := sound.holds
  obtain ⟨grown, gave, hole⟩ := MemorySpace.allocatePages_single whole (le_refl _) (by decide)
    (by decide) page (by decide)
  have begun : Begun ⟨grown, fun _ => 0, 2 ^ 32, 0⟩ := ⟨⟨rfl, rfl⟩, hole, rfl⟩
  have below : buf % ctrlPageSize < ctrlPageSize := Nat.mod_lt _ (by decide)
  have atMost : buf % ctrlPageSize ≤ buf := Nat.mod_le _ _
  have sum : u64 (buf % ctrlPageSize + buflen) = buf % ctrlPageSize + buflen :=
    u64_of_lt (by omega)
  have few : (buflen - (ctrlPageSize - buf % ctrlPageSize)) / ctrlPageSize < 2 ^ 27 := by
    apply Nat.div_lt_of_lt_mul
    unfold ctrlPageSize
    omega
  have longer : listEntries * ctrlPageSize < buflen - (ctrlPageSize - buf % ctrlPageSize) := by omega
  obtain ⟨filled, ran, broken⟩ := fill_chained begun (Nat.zero_add _) few longer (Nat.lt_succ_self _)
  refine ⟨⟨table, fun _ => 0, 2 ^ 32, 0⟩, ⟨filled, buf, 0x1000, [0x1000] ++ [0x2000]⟩,
    rfl, ?_, rfl, rfl, broken⟩
  simp only [setupBuffer, sum]
  rw [if_neg (by unfold listEntries at long; omega)]
  exact bind_ok.mpr ⟨_, gave, bind_ok.mpr ⟨_, ran, rfl⟩⟩

end Chained

section Exactly

variable {space : MemorySpace} {fuel page i buf left : Nat} {pages : List Address}

/-- What the device reads begins with the entry at hand. -/
theorem walkList_entry (inside : i + 1 ≠ listEntries) (nonempty : 0 < left)
    (exactly : walkList space fuel page i left = .ok (List.range' buf left, pages)) :
    ∃ entry, space.read (page + i * 8) 8 = .ok entry ∧ leValue entry = buf := by
  cases fuel with
  | zero => cases exactly
  | succ fuel =>
    obtain ⟨entry, read, -⟩ := bind_ok.mp exactly
    refine ⟨entry, read, ?_⟩
    obtain ⟨left, rfl⟩ := Nat.exists_eq_succ_of_ne_zero (Nat.ne_of_gt nonempty)
    by_cases last : left + 1 ≤ ctrlPageSize
    · rw [walkList_last read last] at exactly
      have same := (Prod.mk.inj (Except.ok.inj exactly)).1
      rw [List.range'_succ, List.range'_succ] at same
      exact (List.cons.inj same).1
    · obtain ⟨addresses, _, -, same⟩ :=
        (walkList_page read (Nat.lt_of_not_le last) inside).mp exactly
      have same := (Prod.mk.inj same).1
      rw [ctrlPageSize, List.range'_succ, List.range'_succ, List.cons_append] at same
      exact (List.cons.inj same).1.symm

/-- It goes on with the next entry. -/
theorem walkList_rest (inside : i + 1 ≠ listEntries) (long : ctrlPageSize < left)
    (exactly : walkList space fuel page i left = .ok (List.range' buf left, pages)) :
    ∃ fewer others, walkList space fewer page (i + 1) (left - ctrlPageSize) =
      .ok (List.range' (buf + ctrlPageSize) (left - ctrlPageSize), others) := by
  cases fuel with
  | zero => cases exactly
  | succ fuel =>
    obtain ⟨entry, read, -⟩ := bind_ok.mp exactly
    obtain ⟨addresses, others, walked, same⟩ := (walkList_page read long inside).mp exactly
    have same := (Prod.mk.inj same).1
    have split : List.range' buf left = List.range' buf ctrlPageSize ++
        List.range' (buf + ctrlPageSize) (left - ctrlPageSize) := by
      rw [List.range'_append_1, Nat.add_sub_cancel' (Nat.le_of_lt long)]
    rw [split] at same
    obtain ⟨-, rfl⟩ := List.append_inj same (by rw [List.length_range', List.length_range'])
    exact ⟨fuel, others, walked⟩

/-- So it reaches the last entry of a full list page. -/
theorem walkList_reach (count : Nat) (inside : count < listEntries)
    (long : count * ctrlPageSize < left)
    (exactly : walkList space fuel page 0 left = .ok (List.range' buf left, pages)) :
    ∃ fewer others, walkList space fewer page count (left - count * ctrlPageSize) =
      .ok (List.range' (buf + count * ctrlPageSize) (left - count * ctrlPageSize), others) := by
  induction count with
  | zero =>
    rw [Nat.zero_mul]
    exact ⟨fuel, pages, exactly⟩
  | succ count ih =>
    rw [Nat.add_one_mul] at long
    obtain ⟨fewer, others, walked⟩ := ih (Nat.lt_of_succ_lt inside) (by omega)
    obtain ⟨fewer, others, walked⟩ := walkList_rest (Nat.ne_of_lt inside) (by omega) walked
    rw [Nat.add_one_mul, ← Nat.sub_sub, ← Nat.add_assoc]
    exact ⟨fewer, others, walked⟩

/-- A broken list does not describe its buffer. -/
theorem Broken.misread (broken : Broken space) (positive : 0 < buf)
    (long : listEntries * ctrlPageSize < left) :
    walkList space fuel 0x1000 0 left ≠ .ok (List.range' buf left, pages) := by
  intro exactly
  unfold listEntries ctrlPageSize at long
  obtain ⟨fewer, others, walked⟩ :=
    walkList_reach 511 (by decide) (by unfold ctrlPageSize; omega) exactly
  have more : ctrlPageSize < left - 511 * ctrlPageSize := by
    unfold ctrlPageSize
    omega
  have reads : ∀ addr, addr + 8 ≤ 2 ^ 32 → space.read addr 8 = .ok (space.peek addr 8) := by
    intro addr below
    apply MemorySpace.read_eq
    exact MemorySpace.translate_zero broken.base broken.size.le
      (by rw [broken.size]; exact below) (by decide)
  cases fewer with
  | zero => cases walked
  | succ fewer =>
    have link := reads (0x1000 + 511 * 8) (by decide)
    obtain ⟨addresses, rest, walked, same⟩ := (walkList_link link more rfl).mp walked
    obtain rfl := (Prod.mk.inj same).1
    rw [broken.link, leValue_address (by decide)] at walked
    obtain ⟨fewer, others, walked⟩ := walkList_rest (by decide) more walked
    obtain ⟨entry, read, value⟩ := walkList_entry (by decide)
      (Nat.sub_pos_of_lt more) walked
    rw [reads (0x2000 + 1 * 8) (by decide), broken.blank] at read
    obtain rfl := Except.ok.inj read
    have zero : leValue (List.replicate 8 0) = 0 := by decide
    omega

/-- Some space serves a buffer with a longer list and gets regions that describe something else. -/
theorem inexact_chained {buflen : Nat} (fits : buf + buflen ≤ 2 ^ 32)
    (long : ctrlPageSize + listEntries * ctrlPageSize < buf % ctrlPageSize + buflen) :
    ∃ space prps, space.iovaBase = 0 ∧
      setupBuffer space buf buflen = .ok prps ∧ ¬ prps.Exact buf buflen := by
  obtain ⟨space, prps, addressable, ran, prp1, prp2, broken⟩ := setupBuffer_chained fits long
  refine ⟨space, prps, addressable, ran, ?_⟩
  rintro ⟨fuel, pages, walked, -⟩
  have below : buf % ctrlPageSize < ctrlPageSize := Nat.mod_lt _ (by decide)
  unfold walk at walked
  simp only [prp1, prp2] at walked
  unfold listEntries at long
  rw [if_neg (by omega), if_neg (by omega)] at walked
  obtain ⟨⟨addresses, others⟩, inner, walked⟩ := bind_ok.mp walked
  have same : List.range' buf (ctrlPageSize - buf % ctrlPageSize) ++ addresses =
      List.range' buf buflen := (Prod.mk.inj (Except.ok.inj walked)).1
  have split : List.range' buf buflen =
      List.range' buf (ctrlPageSize - buf % ctrlPageSize) ++
        List.range' (buf + (ctrlPageSize - buf % ctrlPageSize))
          (buflen - (ctrlPageSize - buf % ctrlPageSize)) := by
    rw [List.range'_append_1, Nat.add_sub_cancel' (by omega)]
  rw [split] at same
  obtain ⟨-, rfl⟩ := List.append_inj same rfl
  exact broken.misread (by omega) (by unfold listEntries; omega) inner

/-- Every successful `setup_buffer` describes exactly the buffer, whatever the memory space holds,
just for the buffers whose list fits one page. -/
theorem exact_iff {buflen : Nat} (fits : buf + buflen ≤ 2 ^ 32) :
    (∀ space prps, space.iovaBase < 2 ^ 32 →
      setupBuffer space buf buflen = .ok prps → prps.Exact buf buflen) ↔
    buf % ctrlPageSize + buflen ≤ ctrlPageSize + listEntries * ctrlPageSize := by
  constructor
  · intro exactly
    by_contra long
    rw [Nat.not_le] at long
    obtain ⟨space, prps, addressable, ran, inexact⟩ := inexact_chained fits long
    exact inexact (exactly space prps (by omega) ran)
  · intro enough space prps addressable ran
    exact exact_single addressable fits enough ran

/-- Three pages from within a page on are described by a list. -/
theorem exact_iff_list :
    (∀ space prps, space.iovaBase < 2 ^ 32 →
      setupBuffer space 0x4200 0x3000 = .ok prps → prps.Exact 0x4200 0x3000) ↔
    0x4200 % ctrlPageSize + 0x3000 ≤ ctrlPageSize + listEntries * ctrlPageSize :=
  exact_iff (by decide)

/-- A buffer of 514 pages is served, but its regions describe something else. -/
theorem inexact_two_lists :
    ¬ ∀ space buf buflen prps, 0 < buflen → buf + buflen ≤ 2 ^ 32 →
      space.iovaBase < 2 ^ 32 → setupBuffer space buf buflen = .ok prps →
      prps.Exact buf buflen := by
  intro exactly
  have fits : 0x400000 + 0x202000 ≤ 2 ^ 32 := by decide
  obtain ⟨space, prps, addressable, ran, inexact⟩ := inexact_chained fits (by decide)
  exact inexact (exactly space _ _ prps (by decide) (by decide) (by omega) ran)

end Exactly

end Prps

end McmqHost
