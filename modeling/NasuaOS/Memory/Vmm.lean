import NasuaOS.Base.Bits
import NasuaOS.Memory.Pmm
import Mathlib.Data.List.FinRange

/-!
# Virtual memory manager

`src/resources/drivers/memory/functions/vmm.cpp`. The direct map (HHDM) is a linear window, so a
pointer to a table and the physical address of the table determine each other: tables are named by
their physical address. Invalidation of the TLB and messages are left out, and so are null handles
and a manager before `init`.
-/

namespace NasuaOS.Memory

open Base

/-- `PAGE_PRESENT`. -/
def pagePresent : Nat := 0x001

/-- `PAGE_WRITE`. -/
def pageWrite : Nat := 0x002

/-- `PAGE_USER`. -/
def pageUser : Nat := 0x004

/-- `PAGE_NX`. -/
def pageNx : Nat := 1 <<< 63

/-- `PAGE_ADDRESS_MASK`. -/
def pageAddressMask : Nat := 0x000FFFFFFFFFF000

/-- `~0xFFF`, on 64 bits. -/
def pageMask : Nat := 0xFFFFFFFFFFFFF000

/-- `entry & PAGE_PRESENT`. -/
def present (e : Nat) : Bool := e &&& pagePresent != 0

/-- `entry & PAGE_USER`. -/
def user (e : Nat) : Bool := e &&& pageUser != 0

/-- `entry & (1 << 7)`: the entry maps a large page. -/
def large (e : Nat) : Bool := e &&& 1 <<< 7 != 0

/-- `table_from_entry`. -/
def tableFromEntry (e : Nat) : Nat := e &&& pageMask

/-- The frame of a leaf entry. -/
def frameOf (e : Nat) : Nat := e &&& pageAddressMask

/-- Index of an address in a table: nine bits from `shift` on. -/
def tableIndex (virt shift : Nat) : Fin 512 := Fin.ofNat 512 (virt >>> shift)

/-- The word of its page that a virtual address points to. -/
def wordIndex (virt : Nat) : Fin 512 := Fin.ofNat 512 (virt / 8)

/-- The `PAGE_*` bits. -/
structure PageFlags where
  present : Bool
  write : Bool
  user : Bool
  nx : Bool
deriving DecidableEq

/-- The flags as they stand in an entry. -/
def PageFlags.bits (f : PageFlags) : Nat :=
  (if f.present then pagePresent else 0) ||| (if f.write then pageWrite else 0) |||
    (if f.user then pageUser else 0) ||| (if f.nx then pageNx else 0)

/-- The manager of frames, the words of every frame, and the frame of the kernel's `pml4`. -/
structure Machine where
  pmm : Pmm
  mem : Nat → Fin 512 → Nat
  pml4 : Nat

namespace Machine

/-- Set a word of a frame. -/
def write (m : Machine) (frame : Nat) (i : Fin 512) (e : Nat) : Machine :=
  { m with mem := fun f j => if f = frame ∧ j = i then e else m.mem f j }

/-- Set all words of a frame. -/
def fill (m : Machine) (frame : Nat) (words : Fin 512 → Nat) : Machine :=
  { m with mem := fun f j => if f = frame then words j else m.mem f j }

/-- Give a page back. -/
def free (m : Machine) (addr : Nat) : Machine := { m with pmm := freePage m.pmm addr }

end Machine

/-- `alloc_page` in the machine. -/
def takePage (m : Machine) : Nat × Machine :=
  ((allocPage m.pmm).1, { m with pmm := (allocPage m.pmm).2 })

/-- `create_table`. -/
def createTable (m : Machine) : Option Nat × Machine :=
  match takePage m with
  | (page, m) => if page = 0 then (none, m) else (some page, m.fill page fun _ => 0)

/-- One level of `map_page`: the table below an entry, created if there is none. -/
def ensureTable (table : Nat) (i : Fin 512) (m : Machine) : Option Nat × Machine :=
  if present (m.mem table i) = true then (some (tableFromEntry (m.mem table i)), m)
  else
    match createTable m with
    | (none, m) => (none, m)
    | (some t, m) => (some t, m.write table i (t ||| pagePresent ||| pageWrite))

/-- The levels of `map_page` one after another. -/
def ensureTables : Nat → List (Fin 512) → Machine → Option Nat × Machine
  | table, [], m => (some table, m)
  | table, i :: rest, m =>
    match ensureTable table i m with
    | (none, m) => (none, m)
    | (some t, m) => ensureTables t rest m

/-- Indices of an address in the tables above the last one. -/
def tableIndices (virt : Nat) : List (Fin 512) :=
  [tableIndex virt 39, tableIndex virt 30, tableIndex virt 21]

/-- An entry for a page: `(phys & ~0xFFF) | flags | PAGE_PRESENT`. -/
def leafEntry (phys flags : Nat) : Nat := phys &&& pageMask ||| flags ||| pagePresent

/-- The entry that `map_page` stores; the last step clears the NX bit. -/
def kernelLeaf (phys flags : Nat) : Nat := leafEntry phys flags &&& 0x7FFFFFFFFFFFFFFF

/-- `map_page`. -/
def mapPage (virt phys flags : Nat) (m : Machine) : Bool × Machine :=
  match ensureTables m.pml4 (tableIndices virt) m with
  | (none, m) => (false, m)
  | (some pt, m) => (true, m.write pt (tableIndex virt 12) (kernelLeaf phys flags))

/-- The levels of `unmap_page` one after another: the last table, if all entries are present. -/
def findTable (m : Machine) : Nat → List (Fin 512) → Option Nat
  | table, [] => some table
  | table, i :: rest =>
    if present (m.mem table i) = false then none
    else findTable m (tableFromEntry (m.mem table i)) rest

/-- `unmap_page`. -/
def unmapPage (virt : Nat) (m : Machine) : Bool × Machine :=
  match findTable m m.pml4 (tableIndices virt) with
  | none => (false, m)
  | some pt =>
    if present (m.mem pt (tableIndex virt 12)) = false then (false, m)
    else (true, m.write pt (tableIndex virt 12) 0)

/-- Translation by an entry for a page of 1 GiB. -/
def translate1G (e virt : Nat) : Nat :=
  (e &&& 0x000FFFFFC0000000 ||| virt &&& 0x3FFFFFFF) &&& pageAddressMask

/-- Translation by an entry for a page of 2 MiB. -/
def translate2M (e virt : Nat) : Nat :=
  (e &&& 0x000FFFFFFFE00000 ||| virt &&& 0x1FFFFF) &&& pageAddressMask

/-- `translate`; 0 when nothing is mapped. -/
def translate (virt : Nat) (m : Machine) : Nat :=
  let pml4Entry := m.mem m.pml4 (tableIndex virt 39)
  if present pml4Entry = false then 0
  else
    let pdptEntry := m.mem (tableFromEntry pml4Entry) (tableIndex virt 30)
    if present pdptEntry = false then 0
    else if large pdptEntry = true then translate1G pdptEntry virt
    else
      let pdEntry := m.mem (tableFromEntry pdptEntry) (tableIndex virt 21)
      if present pdEntry = false then 0
      else if large pdEntry = true then translate2M pdEntry virt
      else
        let ptEntry := m.mem (tableFromEntry pdEntry) (tableIndex virt 12)
        if present ptEntry = false then 0 else frameOf ptEntry

/-- `UserAddressSpace`. -/
structure UserAddressSpace where
  rootPhys : Nat
  base : Nat
  pml4Index : Fin 512
  valid : Bool

/-- `UserAddressSpace{}`. -/
def UserAddressSpace.empty : UserAddressSpace := ⟨0, 0, 0, false⟩

/-- The entry of a new table of a user space. -/
def userTableEntry (t : Nat) : Nat := t ||| pagePresent ||| pageWrite ||| pageUser

/-- One level of `get_user_leaf_table`. With `create`, a missing table is created; below the root an
entry without `PAGE_USER` gets it. -/
def userTable (create below : Bool) (table : Nat) (i : Fin 512) (m : Machine) :
    Option Nat × Machine :=
  if present (m.mem table i) = false then
    if create = false then (none, m)
    else
      match createTable m with
      | (none, m) => (none, m)
      | (some t, m) =>
        (some (tableFromEntry (userTableEntry t)), m.write table i (userTableEntry t))
  else if below = true ∧ user (m.mem table i) = false then
    if create = false then (none, m)
    else
      (some (tableFromEntry (m.mem table i ||| pageUser)),
        m.write table i (m.mem table i ||| pageUser))
  else (some (tableFromEntry (m.mem table i)), m)

/-- The levels of `get_user_leaf_table` one after another. -/
def userTables (create : Bool) : Nat → List (Bool × Fin 512) → Machine → Option Nat × Machine
  | table, [], m => (some table, m)
  | table, (below, i) :: rest, m =>
    match userTable create below table i m with
    | (none, m) => (none, m)
    | (some t, m) => userTables create t rest m

/-- `get_user_leaf_table`. -/
def getUserLeafTable (space : UserAddressSpace) (virt : Nat) (create : Bool) (m : Machine) :
    Option Nat × Machine :=
  if space.valid = false ∨ virt < space.base ∨ 2 ^ 47 ≤ virt ∨
      tableIndex virt 39 ≠ space.pml4Index then (none, m)
  else
    userTables create space.rootPhys
      [(false, space.pml4Index), (true, tableIndex virt 30), (true, tableIndex virt 21)] m

/-- An entry of the kernel half as a user root has it: `entry & ~PAGE_USER`. -/
def kernelEntry (e : Nat) : Nat := e &&& 0xFFFFFFFFFFFFFFFB

/-- The scan for a root entry that the kernel does not use, from `index` on; 256 if there is
none. -/
def freeUserIndex (m : Machine) : Nat → Nat → Nat
  | 0, index => index
  | count + 1, index =>
    if present (m.mem m.pml4 (Fin.ofNat 512 index)) = true then freeUserIndex m count (index + 1)
    else index

/-- `create_user_address_space`; the handle is overwritten in any case. -/
def createUserAddressSpace (m : Machine) : Bool × UserAddressSpace × Machine :=
  match takePage m with
  | (rootPhys, m) =>
    if rootPhys = 0 then (false, .empty, m)
    else
      let m := m.fill rootPhys fun i => if 256 ≤ i.val then kernelEntry (m.mem m.pml4 i) else 0
      let userIndex := freeUserIndex m 255 1
      if userIndex = 256 then (false, .empty, m.free rootPhys)
      else (true, ⟨rootPhys, userIndex <<< 39, Fin.ofNat 512 userIndex, true⟩, m)

/-- `map_user_page`. -/
def mapUserPage (space : UserAddressSpace) (virt phys flags : Nat) (m : Machine) :
    Bool × Machine :=
  if virt &&& 0xFFF ≠ 0 ∨ phys &&& 0xFFF ≠ 0 ∨ phys &&& 0xFFF0000000000FFF ≠ 0 ∨ phys = 0 ∨
      user flags = false then (false, m)
  else
    match getUserLeafTable space virt true m with
    | (none, m) => (false, m)
    | (some pt, m) =>
      if present (m.mem pt (tableIndex virt 12)) = true then (false, m)
      else (true, m.write pt (tableIndex virt 12) (leafEntry phys flags))

/-- `unmap_user_page`. -/
def unmapUserPage (space : UserAddressSpace) (virt : Nat) (m : Machine) : Bool × Machine :=
  if virt &&& 0xFFF ≠ 0 then (false, m)
  else
    match getUserLeafTable space virt false m with
    | (none, m) => (false, m)
    | (some pt, m) =>
      if present (m.mem pt (tableIndex virt 12)) = false then (false, m)
      else
        let physicalPage := frameOf (m.mem pt (tableIndex virt 12))
        (true, (m.write pt (tableIndex virt 12) 0).free physicalPage)

/-- `is_user_range`; its loop takes the pages by number. -/
def isUserRange (space : UserAddressSpace) (virt length : Nat) (write execute : Bool)
    (m : Machine) : Bool :=
  if space.valid = false ∨ length = 0 ∨ virt < space.base ∨ 2 ^ 47 ≤ virt ∨
      2 ^ 47 - virt < length ∨ tableIndex virt 39 ≠ space.pml4Index then false
  else
    let first := virt / pageSize
    (List.range' first ((virt + length - 1) / pageSize - first + 1)).all fun n =>
      match (getUserLeafTable space (n * pageSize) false m).1 with
      | none => false
      | some pt =>
        let entry := m.mem pt (tableIndex (n * pageSize) 12)
        !(!present entry || !user entry || write && entry &&& pageWrite == 0 ||
          execute && entry &&& pageNx != 0)

/-- `sync_kernel_mappings`. -/
def syncKernelMappings (space : UserAddressSpace) (m : Machine) : Bool × Machine :=
  if space.valid = false ∨ space.rootPhys = 0 then (false, m)
  else
    (true, m.fill space.rootPhys fun i =>
      if 256 ≤ i.val then kernelEntry (m.mem m.pml4 i) else m.mem space.rootPhys i)

/-- The innermost loop of `destroy_user_address_space`: the pages of a last table. -/
def releasePages (m : Machine) (pt : Nat) (pmm : Pmm) : Pmm :=
  (List.finRange 512).foldl (fun pmm i =>
    if present (m.mem pt i) = true then freePage pmm (frameOf (m.mem pt i)) else pmm) pmm

/-- The other loops of `destroy_user_address_space`: for each table below, what is below it and then
the table. -/
def releaseTables (m : Machine) (below : Nat → Pmm → Pmm) (table : Nat) (pmm : Pmm) : Pmm :=
  (List.finRange 512).foldl (fun pmm i =>
    if present (m.mem table i) = true then
      let t := tableFromEntry (m.mem table i)
      freePage (below t pmm) t
    else pmm) pmm

/-- `destroy_user_address_space`, with the root that `CR3` holds. -/
def destroyUserAddressSpace (activeCr3 : Nat) (space : UserAddressSpace) (m : Machine) :
    Bool × UserAddressSpace × Machine :=
  if space.valid = false ∨ space.rootPhys = 0 ∨ activeCr3 = space.rootPhys then (false, space, m)
  else
    let rootEntry := m.mem space.rootPhys space.pml4Index
    let pdpt := tableFromEntry rootEntry
    let pmm :=
      if present rootEntry = true then
        freePage (releaseTables m (releaseTables m (releasePages m)) pdpt m.pmm) pdpt
      else m.pmm
    (true, .empty, { m with pmm := freePage pmm space.rootPhys })

/-- The present bit. -/
theorem present_eq (e : Nat) : present e = e.testBit 0 := by
  rw [present, pagePresent, show 0x001 = 2 ^ 0 from rfl, Nat.and_two_pow]
  cases e.testBit 0 with
  | false | true => rfl

/-- The user bit. -/
theorem user_eq (e : Nat) : user e = e.testBit 2 := by
  rw [user, pageUser, show 0x004 = 2 ^ 2 from rfl, Nat.and_two_pow]
  cases e.testBit 2 with
  | false | true => rfl

/-- The size bit. -/
theorem large_eq (e : Nat) : large e = e.testBit 7 := by
  rw [large, show 1 <<< 7 = 2 ^ 7 from rfl, Nat.and_two_pow]
  cases e.testBit 7 with
  | false | true => rfl

/-- An empty entry is absent. -/
@[simp] theorem present_zero : present 0 = false := rfl

private theorem PageFlags.testBit_bits {f : PageFlags} {i : Nat} (h : f.bits.testBit i = true) :
    i = 0 ∨ i = 1 ∨ i = 2 ∨ i = 63 := by
  rw [bits, show pagePresent = 2 ^ 0 from rfl, show pageWrite = 2 ^ 1 from rfl,
    show pageUser = 2 ^ 2 from rfl, show pageNx = 2 ^ 63 from rfl] at h
  simp only [Nat.testBit_or, testBit_ite_two_pow, Bool.or_eq_true, Bool.and_eq_true,
    decide_eq_true_eq] at h
  omega

private theorem pageMask_eq : pageMask = bitRange 12 64 := by decide

private theorem pageAddressMask_eq : pageAddressMask = bitRange 12 52 := by decide

/-- An entry that points to a table gives the table back, whatever low flags it has. -/
theorem tableFromEntry_or {t extra : Nat} (hdvd : pageSize ∣ t) (hlt : t < 2 ^ 64)
    (hextra : extra < pageSize) : tableFromEntry (t ||| extra) = t := by
  rw [tableFromEntry, pageMask_eq]
  apply or_and_bitRange hdvd hlt
  intro i hi
  have hone : 2 ^ 0 ∣ extra := one_dvd extra
  have hsmall : extra < 2 ^ 12 := hextra
  exact .inl (testBit_of_aligned hone hsmall hi).2

/-- An entry with the present flag is present. -/
theorem present_or (e : Nat) : present (e ||| pagePresent) = true := by
  rw [present_eq, Nat.testBit_or]
  simp [pagePresent]

/-- An entry for a page is present. -/
theorem present_leafEntry (phys flags : Nat) : present (leafEntry phys flags) = true :=
  present_or _

/-- An entry for a page names the frame. -/
theorem frameOf_leafEntry {phys : Nat} (flags : PageFlags) (hdvd : pageSize ∣ phys)
    (hlt : phys < 2 ^ 52) : frameOf (leafEntry phys flags.bits) = phys := by
  have halign : 2 ^ 12 ∣ phys := hdvd
  have hphys : phys &&& pageMask = phys := by
    have h : (phys ||| 0) &&& bitRange 12 64 = phys :=
      or_and_bitRange halign (Nat.lt_trans hlt (by decide)) (by simp)
    rwa [Nat.or_zero, ← pageMask_eq] at h
  rw [frameOf, leafEntry, hphys, pageAddressMask_eq, Nat.or_assoc]
  apply or_and_bitRange halign hlt
  intro i hi
  rw [Nat.testBit_or, Bool.or_eq_true] at hi
  rcases hi with hi | hi
  · have hcases := flags.testBit_bits hi
    omega
  · rw [pagePresent, show 0x001 = 2 ^ 0 from rfl, Nat.testBit_two_pow, decide_eq_true_eq] at hi
    omega

/-- What `map_page` stores is present. -/
theorem present_kernelLeaf (phys flags : Nat) : present (kernelLeaf phys flags) = true := by
  rw [present_eq, kernelLeaf, Nat.testBit_and, ← present_eq, present_leafEntry]
  decide

/-- What `map_page` stores names the frame. -/
theorem frameOf_kernelLeaf {phys : Nat} (flags : PageFlags) (hdvd : pageSize ∣ phys)
    (hlt : phys < 2 ^ 52) : frameOf (kernelLeaf phys flags.bits) = phys := by
  have hmask : 0x7FFFFFFFFFFFFFFF &&& pageAddressMask = pageAddressMask := by decide
  rw [frameOf, kernelLeaf, Nat.and_assoc, hmask]
  exact frameOf_leafEntry flags hdvd hlt

end NasuaOS.Memory
