import BaochipXous.LibProg

/-!
The types that the kernel shares with user programs, and the memory manager: page allocation, page
tables, lending and moving of pages, in 32-bit arithmetic as in the release build. The leaf tables
of all address spaces are part of the state; the source reaches those of the active one through a
window. The contents of the pages are left out.
-/

namespace BaochipXous.Kernel

section

/-- A process identifier, the source's `NonZeroU8`. -/
structure PID where
  get : Nat
  pos : 0 < get
  lt : get < 256
  deriving DecidableEq

namespace PID

def new (n : Nat) : Option PID :=
  if h : 0 < n ∧ n < 256 then some ⟨n, h.1, h.2⟩ else none

theorem ext' {p q : PID} (h : p.get = q.get) : p = q := by
  cases p
  cases q
  simp_all

theorem new_get (p : PID) : new p.get = some p := by simp [new, p.pos, p.lt]

end PID

/-- A thread index within its process. -/
abbrev TID := Nat

/-- A nonzero `usize`, used for addresses and sizes. -/
structure NonZero where
  get : Nat
  pos : 0 < get
  deriving DecidableEq

namespace NonZero

def new (n : Nat) : Option NonZero :=
  if h : 0 < n then some ⟨n, h⟩ else none

/-- The optional number as a word, zero standing for its absence. -/
def orZero (n : Option NonZero) : Nat :=
  match n with
  | some n => n.get
  | none => 0

@[simp] theorem new_get (n : NonZero) : new n.get = some n := by simp [new, n.pos]

@[simp] theorem new_orZero (n : Option NonZero) : new (orZero n) = n := by
  cases n with
  | none => rfl
  | some n => exact new_get n

end NonZero

abbrev MemoryAddress := NonZero

abbrev MemorySize := NonZero

/-- The errors of a system call. -/
inductive Error where
  | noError
  | badAlignment
  | badAddress
  | outOfMemory
  | memoryInUse
  | interruptNotFound
  | interruptInUse
  | invalidString
  | serverExists
  | serverNotFound
  | processNotFound
  | processNotChild
  | processTerminated
  | timeout
  | internalError
  | serverQueueFull
  | threadNotAvailable
  | unhandledSyscall
  | invalidSyscall
  | shareViolation
  | invalidThread
  | invalidPID
  | unknownError
  | accessDenied
  | useBeforeInit
  | doubleFree
  | debugInProgress
  | invalidLimit
  | notFound
  | invalidCoding
  | hardwareError
  | serializationError
  | invalidArgument
  | networkError
  | storageError
  | unavailable
  | parseError
  | invalidCore
  | verificationError
  | securityError
  deriving DecidableEq

/-- The number that stands for an error in a register. -/
def Error.toUsize : Error → Nat
  | noError => 0
  | badAlignment => 1
  | badAddress => 2
  | outOfMemory => 3
  | memoryInUse => 4
  | interruptNotFound => 5
  | interruptInUse => 6
  | invalidString => 7
  | serverExists => 8
  | serverNotFound => 9
  | processNotFound => 10
  | processNotChild => 11
  | processTerminated => 12
  | timeout => 13
  | internalError => 14
  | serverQueueFull => 15
  | threadNotAvailable => 16
  | unhandledSyscall => 17
  | invalidSyscall => 18
  | shareViolation => 19
  | invalidThread => 20
  | invalidPID => 21
  | accessDenied => 23
  | useBeforeInit => 24
  | doubleFree => 25
  | debugInProgress => 26
  | invalidLimit => 27
  | notFound => 28
  | invalidCoding => 29
  | hardwareError => 30
  | serializationError => 31
  | invalidArgument => 32
  | networkError => 33
  | storageError => 34
  | unavailable => 35
  | parseError => 36
  | invalidCore => 37
  | verificationError => 38
  | securityError => 39
  -- the largest word
  | unknownError => 2 ^ 32 - 1

/-- A range of memory; neither its address nor its size is zero. -/
structure MemoryRange where
  addr : MemoryAddress
  size : MemorySize
  deriving DecidableEq

namespace MemoryRange

def new (addr size : Nat) : Except Error MemoryRange :=
  match NonZero.new addr, NonZero.new size with
  | some addr, some size => .ok ⟨addr, size⟩
  | _, _ => .error .badAddress

def asPtr (r : MemoryRange) : Nat := r.addr.get

def len (r : MemoryRange) : Nat := r.size.get

@[simp] theorem new_asPtr_len (r : MemoryRange) : new r.asPtr r.len = .ok r := by
  simp [new, asPtr, len]

end MemoryRange

structure MemoryMessage where
  id : Nat
  buf : MemoryRange
  offset : Option MemoryAddress
  valid : Option MemorySize

structure ScalarMessage where
  id : Nat
  arg1 : Nat
  arg2 : Nat
  arg3 : Nat
  arg4 : Nat

/-- A message as a client sends it and as a server sees it. -/
inductive Message where
  | mutableBorrow (msg : MemoryMessage)
  | borrow (msg : MemoryMessage)
  | move (msg : MemoryMessage)
  | scalar (msg : ScalarMessage)
  | blockingScalar (msg : ScalarMessage)

namespace Message

def isBlocking : Message → Bool
  | mutableBorrow _ | borrow _ | blockingScalar _ => true
  | move _ | scalar _ => false

def hasMemory : Message → Bool
  | mutableBorrow _ | borrow _ | move _ => true
  | blockingScalar _ | scalar _ => false

def memory : Message → Option MemoryRange
  | mutableBorrow msg | borrow msg | move msg => some msg.buf
  | blockingScalar _ | scalar _ => none

def toUsize : Message → List Nat
  | mutableBorrow msg => 0 :: words msg
  | borrow msg => 1 :: words msg
  | move msg => 2 :: words msg
  | scalar msg => [3, msg.id, msg.arg1, msg.arg2, msg.arg3, msg.arg4]
  | blockingScalar msg => [4, msg.id, msg.arg1, msg.arg2, msg.arg3, msg.arg4]
where
  words (msg : MemoryMessage) : List Nat :=
    [msg.id, msg.buf.asPtr, msg.buf.len, NonZero.orZero msg.offset, NonZero.orZero msg.valid]

end Message

/-- A message together with the word that names its sender. -/
structure MessageEnvelope where
  sender : Nat
  body : Message

/-- The 128-bit name of a server. -/
structure SID where
  w0 : UInt32
  w1 : UInt32
  w2 : UInt32
  w3 : UInt32
  deriving DecidableEq

def pageSize : Nat := 4096
def userAreaEnd : Nat := 0xff000000
def pageTableOffset : Nat := 0xff400000
def defaultHeapBase : Nat := 0x20000000
def defaultMessageBase : Nat := 0x40000000
def defaultBase : Nat := 0x60000000
def mmapVirtBase : Nat := 0xb0000000

def pid1 : PID := ⟨1, by decide, by decide⟩

theorem two_lt : 2 < 256 := by decide

theorem three_lt : 3 < 256 := by decide

def pid2 : PID := ⟨2, Nat.succ_pos _, two_lt⟩
def pid3 : PID := ⟨3, Nat.succ_pos _, three_lt⟩

def wadd (a b : Nat) : Nat := (a + b) % 2 ^ 32

def wsub (a b : Nat) : Nat := (a + 2 ^ 32 - b) % 2 ^ 32

def saturatingAdd (a b : Nat) : Nat := min (a + b) (2 ^ 32 - 1)

def pages (lo hi : Nat) : List Nat := List.range' lo ((hi - lo + (pageSize - 1)) / pageSize) pageSize

/-- The page of an address, which selects the root entry and the leaf entry. -/
def vpn (virt : Nat) : Nat := virt / pageSize % 2 ^ 20

def vpn1 (virt : Nat) : Nat := vpn virt / 1024

structure MemoryFlags where
  reserve : Bool := false
  r : Bool := false
  w : Bool := false
  x : Bool := false
  dev : Bool := false
  virt : Bool := false
  p : Bool := false

/-- What an address range is searched for. -/
inductive MemoryType where
  | default
  | messages
  | heap
  | stack

/-- An entry of a leaf page table: a physical page number and the ten flag bits. -/
structure PTE where
  ppn : Nat := 0
  valid : Bool := false
  r : Bool := false
  w : Bool := false
  x : Bool := false
  user : Bool := false
  global : Bool := false
  a : Bool := false
  d : Bool := false
  s : Bool := false
  p : Bool := false
  deriving DecidableEq

namespace PTE

def zero : PTE := {}

def flagsZero (e : PTE) : Bool :=
  !(e.valid || e.r || e.w || e.x || e.user || e.global || e.a || e.d || e.s || e.p)

def phys (e : PTE) : Nat := e.ppn * pageSize

end PTE

structure Memory where
  ramStart : Nat
  ramSize : Nat
  lastRamPage : Nat
  /-- The owner of each page of main memory. -/
  allocations : Nat → Option PID
  /-- Start and size of the further regions. -/
  extraRegions : List (Nat × Nat)
  /-- The owner of each page of the further regions, counted through all of them. -/
  extraAllocations : Nat → Option PID
  /-- Start and length of the peripheral memory of the platform. -/
  peripheralRam : Nat × Nat
  /-- Which root entries of an address space are valid. -/
  l1 : PID → Nat → Bool
  /-- The leaf entries of an address space; an entry exists only under a valid root entry. -/
  pt : PID → Nat → PTE

/-- The saved context of a thread. The registers are `x1` to `x31`, so `a0` is number 9. -/
structure Thread where
  registers : Nat → Nat
  sepc : Nat

namespace Thread

def zero : Thread where
  registers := fun _ => 0
  sepc := 0

end Thread

/-- The process data that lies in the address space of the process, without its connections. -/
structure ArchProcess where
  /-- One more than the thread that the hardware runs. -/
  hardwareThread : Nat
  memDefaultBase : Nat
  memDefaultLast : Nat
  memMessageBase : Nat
  memMessageLast : Nat
  memHeapBase : Nat
  memHeapSize : Nat
  memHeapMax : Nat
  pid : PID
  lastTidAllocated : Nat
  threads : TID → Thread

/-- A page that is lent by one address space to another. -/
structure Lend where
  ppn : Nat
  lender : PID
  lenderPage : Nat
  borrower : PID
  borrowerPage : Nat

structure Machine where
  mem : Memory
  /-- The active address space. -/
  satp : PID
  /-- The process that `PROCESS_TABLE` names as the current one. -/
  current : PID
  arch : PID → ArchProcess
  /-- History, read by no function: the pages lent and not yet returned. -/
  lends : List Lend

abbrev MM (α : Type) := Prog Error Machine α

variable (m : Machine)

namespace Machine

def entry (virt : Nat) : PTE := m.mem.pt m.satp (vpn virt)

def rootValid (virt : Nat) : Bool := m.mem.l1 m.satp (vpn1 virt)

def setEntry (virt : Nat) (e : PTE) : Machine :=
  { m with mem := { m.mem with
      pt := Function.update m.mem.pt m.satp (Function.update (m.mem.pt m.satp) (vpn virt) e) } }

theorem setEntry_pt (virt : Nat) (e : PTE) (q : PID) (v : Nat) :
    (m.setEntry virt e).mem.pt q v = if q = m.satp ∧ v = vpn virt then e else m.mem.pt q v := by
  by_cases hq : q = m.satp
  · subst hq
    by_cases hv : v = vpn virt <;> simp [setEntry, hv]
  · simp [setEntry, hq]

def setRoot (virt : Nat) : Machine :=
  { m with mem := { m.mem with
      l1 := Function.update m.mem.l1 m.satp (Function.update (m.mem.l1 m.satp) (vpn1 virt) true) } }

def clearTable (virt : Nat) : Machine :=
  { m with mem := { m.mem with
      pt := Function.update m.mem.pt m.satp fun v =>
        if v / 1024 = vpn1 virt then .zero else m.mem.pt m.satp v } }

def updateArch (f : ArchProcess → ArchProcess) : Machine :=
  { m with arch := Function.update m.arch m.satp (f (m.arch m.satp)) }

end Machine

end

open Prog Machine

variable (pid : PID)

def allocPage : MM Nat := do
  let m ← gets mem
  let endPoint := m.ramSize / pageSize
  let startingPoint := max m.lastRamPage endPoint
  -- the slice from the starting point to the end point
  assert (startingPoint ≤ endPoint)
  match (List.range startingPoint).find? fun i => (m.allocations i).isNone with
  | some i => do
    modify fun s => { s with mem := { s.mem with
      allocations := Function.update s.mem.allocations i (some pid)
      lastRamPage := i + 1 } }
    pure (i * pageSize + m.ramStart)
  | none => fail .outOfMemory

inductive ClaimReleaseMove where
  | claim
  | release
  | move (existing : PID)
  deriving DecidableEq

def ClaimReleaseMove.newOwner (action : ClaimReleaseMove) (owner : Option PID) (pid : PID)
    (allowAlias : Bool) : Except Error (Option PID) :=
  let foreign : Bool :=
    match owner with
    | none => false
    | some currentPid =>
      decide (currentPid ≠ pid) && decide (action ≠ .move currentPid)
  if foreign then .error .memoryInUse
  else
    match action with
    | .claim => if owner.isNone || allowAlias then .ok (some pid) else .error .memoryInUse
    | .move _ => .ok (some pid)
    | .release => .ok none

def Memory.isMainMemory (m : Memory) (phys : Nat) : Bool :=
  decide (m.ramStart ≤ phys ∧ phys < m.ramStart + m.ramSize)

def Memory.isPeripheralRam (m : Memory) (phys : Nat) : Bool :=
  decide (m.peripheralRam.1 ≤ phys ∧ phys < m.peripheralRam.1 + m.peripheralRam.2)

def extraOffset (addr offset : Nat) : List (Nat × Nat) → Option Nat
  | [] => none
  | (memStart, memSize) :: rest =>
    if memStart ≤ addr ∧ addr < memStart + memSize then some (offset + (addr - memStart) / pageSize)
    else extraOffset addr (offset + memSize / pageSize) rest

def claimReleaseMove (addr : Nat) (pid : PID) (action : ClaimReleaseMove) : MM Unit := do
  if addr % pageSize ≠ 0 then fail .badAlignment
  else
    let m ← gets mem
    if m.isMainMemory addr then
      let offset := (addr - m.ramStart) / pageSize
      let owner ← ofExcept (action.newOwner (m.allocations offset) pid false)
      modify fun s => { s with mem := { s.mem with
        allocations := Function.update s.mem.allocations offset owner } }
    else
      match extraOffset addr 0 m.extraRegions with
      | none => fail .badAddress
      | some offset => do
        -- the offset, not the address, is asked for being peripheral memory
        let owner ← ofExcept
          (action.newOwner (m.extraAllocations offset) pid (!m.isPeripheralRam offset))
        modify fun s => { s with mem := { s.mem with
          extraAllocations := Function.update s.mem.extraAllocations offset owner } }

def claimPage (addr : Nat) (pid : PID) : MM Unit := claimReleaseMove addr pid .claim

def releasePage (addr : Nat) (pid : PID) : MM Unit := claimReleaseMove addr pid .release

def translateFlags (flags : MemoryFlags) : PTE where
  r := flags.r
  w := flags.w
  x := flags.x
  p := flags.p

def untranslateFlags (e : PTE) : MemoryFlags where
  r := e.r
  w := e.w
  x := e.x
  p := e.p

def activateMapping (asid : PID) : MM Unit := modify fun s => { s with satp := asid }

/-- `map_page_inner`, which calls itself to map a new leaf table into the window of page tables. -/
def mapPageWith (fuel : Nat) (pid : PID) (phys virt : Nat) (reqFlags : MemoryFlags)
    (mapUser : Bool) : MM Unit :=
  match fuel with
  | 0 => halt
  | fuel + 1 => do
    assert (virt % pageSize = 0)
    let rootValid ← gets (rootValid · virt)
    when (!rootValid) do
      let l0PtPhys ← allocPage pid
      modify (setRoot · virt)
      mapPageWith fuel pid l0PtPhys (pageTableOffset + vpn1 virt * pageSize)
        { r := true, w := true } false
      modify (clearTable · virt)
    let e ← gets (entry · virt)
    if e.valid then fail .memoryInUse
    else
      modify (setEntry · virt
        { translateFlags reqFlags with
          ppn := phys / pageSize % 2 ^ 20, user := mapUser, valid := true, d := true, a := true })

/-- The window lies under one root entry, so that two nested calls are enough. -/
def mapPageInner (phys virt : Nat) (reqFlags : MemoryFlags) (mapUser : Bool) : MM Unit :=
  mapPageWith 3 pid phys virt reqFlags mapUser

/-- The entry of an address, which the caller may write back with `Machine.setEntry`. -/
def pagetableEntry (addr : Nat) : MM PTE := do
  if addr % 4 ≠ 0 then fail .badAlignment
  else
    let rootValid ← gets (rootValid · addr)
    if rootValid then gets (entry · addr)
    else fail .badAddress

def unmapPageInner (virt : Nat) : MM Nat := do
  let e ← pagetableEntry virt
  modify (setEntry · virt .zero)
  pure e.phys

def movePageInner (srcSpace : PID) (srcAddr : Nat) (destPid destSpace : PID) (destAddr : Nat) :
    MM Unit := do
  let previous ← pagetableEntry srcAddr
  if !previous.valid then fail .badAddress
  else
    modify (setEntry · srcAddr .zero)
    activateMapping destSpace
    let result ← attempt (mapPageInner destPid previous.phys destAddr (untranslateFlags previous)
      (destPid.get ≠ 1))
    activateMapping srcSpace
    ofExcept result

variable (m : Machine)

def Machine.pageIsLent (srcAddr : Nat) : Bool :=
  decide (srcAddr % 4 = 0) && m.rootValid srcAddr && (m.entry srcAddr).s

def lendPageInner (srcSpace : PID) (srcAddr : Nat) (destPid destSpace : PID) (destAddr : Nat)
    (isMutable : Bool) : MM Nat := do
  let current ← pagetableEntry srcAddr
  if !current.valid then fail .shareViolation
  else if current.s then fail .shareViolation
  else
    modify fun m => { m.setEntry srcAddr { current with valid := false, s := true } with
      lends := ⟨current.ppn, m.satp, vpn srcAddr, destSpace, vpn destAddr⟩ :: m.lends }
    activateMapping destSpace
    let result ← attempt (mapPageInner destPid current.phys destAddr
      { r := true, w := isMutable && current.w } (destPid.get ≠ 1))
    activateMapping srcSpace
    ofExcept (result.map fun _ => current.phys)

def returnPageInner (srcSpace : PID) (srcAddr : Nat) (destSpace : PID) (destAddr : Nat) :
    MM Nat := do
  let src ← pagetableEntry srcAddr
  if !src.valid then fail .shareViolation
  else
    modify (setEntry · srcAddr .zero)
    activateMapping destSpace
    let dest ← unwrap (pagetableEntry destAddr)
    assert dest.s
    modify fun m => { m.setEntry destAddr { dest with s := false, p := false, valid := true } with
      lends := m.lends.filter fun l => !(l.lender = m.satp ∧ l.lenderPage = vpn destAddr) }
    activateMapping srcSpace
    pure src.phys

def Machine.virtToPhys (virt : Nat) : Except Error Nat :=
  if !m.rootValid virt then .error .badAddress
  else if (m.entry virt).s then .error .shareViolation
  else if (m.entry virt).valid then .ok (m.entry virt).phys
  else if m.entry virt ≠ .zero then .error .memoryInUse
  else .error .badAddress

def Machine.addressAvailable (virt : Nat) : Bool :=
  match m.virtToPhys virt with
  | .error e => decide (e = .badAddress)
  | .ok _ => false

def ensurePageExistsInner (address : Nat) : MM Unit := do
  let satp ← gets satp
  if satp ≠ pid1 ∧ userAreaEnd ≤ address then fail .outOfMemory
  else
    let virt := address - address % pageSize
    let rootValid ← gets (rootValid · virt)
    if !rootValid then fail .badAddress
    else
      let e ← gets (entry · virt)
      if e.valid then pure ()
      else if e.flagsZero || e.s then fail .badAddress
      else
        let current ← gets current
        let newPage ← unwrap (allocPage current)
        modify (setEntry · virt
          { e with ppn := newPage / pageSize % 2 ^ 20, valid := true, user := true, d := true,
                   a := true })

def handPageToUser (virt : Nat) : MM Unit := do
  let rootValid ← gets (rootValid · virt)
  let e ← gets (entry · virt)
  if !rootValid then fail .badAddress
  else if !e.valid then fail .badAddress
  else modify (setEntry · virt { e with user := true })

/-- The flags that are asked for and not there. A complement has the lowest four bits only, so that
others are not seen. -/
def MemoryFlags.adds (existing flags : MemoryFlags) : Bool :=
  flags.reserve && !existing.reserve || flags.r && !existing.r || flags.w && !existing.w ||
    flags.x && !existing.x

def Machine.pageFlags (virt : Nat) : Option MemoryFlags :=
  let e := m.entry virt
  if !m.rootValid virt then none
  else if e.s then none
  else if e.r || e.w || e.x then some { r := e.r, w := e.w, x := e.x }
  else none

def updatePageFlags (virt : Nat) (flags : MemoryFlags) : MM Unit := do
  if !(flags.r || flags.w || flags.x) then fail .memoryInUse
  else
    let rootValid ← gets (rootValid · virt)
    if !rootValid then fail .outOfMemory
    else
      let e ← gets (entry · virt)
      if e.s then fail .shareViolation
      else if flags.x && !e.x then fail .shareViolation
      else if flags.r && !e.r then fail .shareViolation
      else if flags.w && !e.w then fail .shareViolation
      else
        modify (setEntry · virt
          { e with x := e.x && flags.x, r := e.r && flags.r, w := e.w && flags.w })

def checkFlags (virt : Nat) (flags : MemoryFlags) : MM Unit := do
  let existing ← ofOption .memoryInUse (← gets (pageFlags · virt))
  if existing.adds flags then fail .memoryInUse else pure ()

def updateMemoryFlags (range : MemoryRange) (flags : MemoryFlags) : MM Unit := do
  let virt := range.asPtr
  let size := range.len
  if virt % pageSize ≠ 0 then fail .badAlignment
  else if size % pageSize ≠ 0 then fail .badAlignment
  else
    forEach (pages virt (wadd virt size)) fun virt => checkFlags virt flags
    forEach (pages virt (wadd virt size)) fun virt => do
      checkFlags virt flags
      updatePageFlags virt flags

def reserveAddress (addr : Nat) (flags : MemoryFlags) : MM Unit := do
  let rootValid ← gets (rootValid · addr)
  when (!rootValid) do
    let pid ← gets satp
    let l0ptPhys ← allocPage pid
    modify (setRoot · addr)
    mapPageInner pid l0ptPhys (pageTableOffset + vpn1 addr * pageSize) { r := true, w := true } false
    modify (clearTable · addr)
  let e ← gets (entry · addr)
  if e.valid then fail .shareViolation
  else modify (setEntry · addr (translateFlags flags))

def unreserveAddress (addr : Nat) : MM Unit := do
  let rootValid ← gets (rootValid · addr)
  if !rootValid then pure ()
  else
    let e ← gets (entry · addr)
    if e.valid then fail .shareViolation
    else modify (setEntry · addr .zero)

def Machine.allFree (size start : Nat) : Bool :=
  (pages start (wadd start size)).all m.addressAvailable

/-- The first place for `size` bytes, from `initial` to `limit` and then from `start` to
`initial`. -/
def Machine.findFree (size start limit initial : Nat) : Option Nat :=
  ((pages initial (wsub limit size)).find? (m.allFree size)).or
    ((pages start initial).find? (m.allFree size))

def findVirtualAddress (virtPtr size : Nat) (kind : MemoryType) : MM Nat := do
  if virtPtr ≠ 0 then pure virtPtr
  else
    let m ← get
    let inner := m.arch m.satp
    match kind with
    | .stack => fail .badAddress
    | .heap =>
      let newVirt := wadd (wadd inner.memHeapBase inner.memHeapSize) pageSize
      if wadd newVirt size > wadd inner.memHeapBase inner.memHeapMax then fail .outOfMemory
      else pure newVirt
    | .default => do
      let found ← ofOption .badAddress (m.findFree size inner.memDefaultBase
        (wadd inner.memDefaultBase 0x10000000) inner.memDefaultLast)
      modify (updateArch · fun a => { a with memDefaultLast := found })
      pure found
    | .messages => do
      let found ← ofOption .badAddress (m.findFree size inner.memMessageBase
        (wadd inner.memMessageBase 0x400000) inner.memMessageLast)
      modify (updateArch · fun a => { a with memMessageLast := found })
      pure found

def reserveRange (virtPtr size : Nat) (flags : MemoryFlags) : MM MemoryRange := do
  let virt ← findVirtualAddress virtPtr size .default
  if virt % pageSize ≠ 0 then fail .badAlignment
  else if size % pageSize ≠ 0 then fail .badAlignment
  else
    forEach (pages virt (wadd virt size)) fun addr => do
      match ← attempt (reserveAddress addr flags) with
      | .ok _ => pure ()
      | .error e => do
        forEach (pages virt addr) fun undo => unwrap (unreserveAddress undo)
        fail e
    ofExcept (MemoryRange.new virt size)

def mapZeroedPage (isUser : Bool) : MM Nat := do
  let virt ← findVirtualAddress 0 pageSize .default
  let phys ← allocPage pid
  match ← attempt (mapPageInner pid phys virt { r := true, w := true } false) with
  | .error e => do
    let _ ← attempt (releasePage phys pid)
    fail e
  | .ok _ => do
    when isUser (handPageToUser virt)
    pure virt

/-- The search for adjacent free pages: where the present run starts, and how long it is. -/
def contiguousRun (m : Memory) (pagesToClaim : Nat) :
    List Nat → Option Nat → Nat → Option Nat × Nat
  | [], rangeStart, currentRun => (rangeStart, currentRun)
  | index :: rest, rangeStart, currentRun =>
    let next :=
      if (m.allocations index).isNone then
        match rangeStart with
        | some start => (some start, currentRun + 1)
        | none => (some index, 1)
      else (none, 0)
    if pagesToClaim ≤ next.2 then next else contiguousRun m pagesToClaim rest next.1 next.2

def Memory.contiguousPages (m : Memory) (size : Nat) : Option Nat :=
  let pagesToClaim := size / pageSize
  match contiguousRun m pagesToClaim (List.range (m.ramSize / pageSize)) none 0 with
  | (some start, run) => if pagesToClaim ≤ run then some (start * pageSize + m.ramStart) else none
  | (none, _) => none

def claimRange (phys size : Nat) (pid : PID) : MM Unit :=
  forEach (pages phys (wadd phys size)) fun claimPhys => do
    match ← attempt (claimPage claimPhys pid) with
    | .ok _ => pure ()
    | .error e => do
      forEach (pages phys claimPhys) fun relPhys => do
        let _ ← attempt (releasePage relPhys pid)
      fail e

/-- Map every page of the range; on failure unmap and release those mapped before. -/
def mapPages (phys virt size : Nat) (pid : PID) (flags : MemoryFlags) : MM Unit :=
  forEach (pages 0 size) fun offset => do
    match ← attempt (mapPageInner pid (wadd offset phys) (wadd offset virt) flags false) with
    | .ok _ => pure ()
    | .error e => do
      forEach (pages 0 offset) fun unmapOffset => do
        let _ ← attempt (unmapPageInner (wadd unmapOffset virt))
        let _ ← attempt (releasePage (wadd unmapOffset phys) pid)
      fail e

/-- The pages of a purely virtual range are reserved for reading and marked for the user. -/
def mapVirtual (virtPtr size : Nat) : MM MemoryRange := do
  if saturatingAdd virtPtr size / 2 ^ 28 ≠ mmapVirtBase / 2 ^ 28 then fail .badAddress
  else
    let start := virtPtr - virtPtr % pageSize
    let roundUp := wadd (wadd virtPtr size) (pageSize - 1)
    let limit := roundUp - roundUp % pageSize
    forEach (pages start limit) fun virt => do
      reserveAddress virt { r := true, p := true }
      let e ← pagetableEntry virt
      modify (setEntry · virt { e with user := true })
    ofExcept (MemoryRange.new start (limit - start))

/-- Where a range lies in memory, which for device memory is looked for. -/
def rangePhys (deviceRam : Bool) (physPtr size : Nat) : MM Nat := do
  let m ← gets mem
  if deviceRam then ofOption .outOfMemory (m.contiguousPages size) else pure physPtr

def mapRange (physPtr virtPtr size : Nat) (pid : PID) (flags : MemoryFlags) (kind : MemoryType) :
    MM MemoryRange := do
  let virt ← findVirtualAddress virtPtr size kind
  let deviceRam := flags.dev && decide (physPtr = 0)
  if physPtr = 0 ∧ flags.virt ∧ virtPtr / 2 ^ 28 = mmapVirtBase / 2 ^ 28 then
    mapVirtual virtPtr size
  else if physPtr = 0 ∧ !deviceRam then
    reserveRange virt size flags
  else
    let phys ← rangePhys deviceRam physPtr size
    claimRange phys size pid
    mapPages phys virt size pid flags
    when deviceRam do
      forEach (pages 0 size) fun offset => unwrap (handPageToUser (wadd virt offset))
    ofExcept (MemoryRange.new virt size)

def unmapPage (virt : Nat) : MM Nat := do
  let pid ← gets current
  match ← gets (virtToPhys · virt) with
  | .ok phys => do
    let _ ← attempt (releasePage phys pid)
    unmapPageInner virt
  | .error _ => unmapPageInner virt

def movePage (srcPid srcMapping : PID) (srcAddr : Nat) (destPid destMapping : PID)
    (destAddr : Nat) : MM Unit := do
  let physAddr ← ofExcept (← gets (virtToPhys · srcAddr))
  movePageInner srcMapping srcAddr destPid destMapping destAddr
  claimReleaseMove physAddr destPid (.move srcPid)

def movePageRaw (physAddr : Nat) (destPid : PID) : MM Unit := do
  let current ← gets current
  claimReleaseMove physAddr destPid (.move current)

def extraAddress (offset : Nat) : List (Nat × Nat) → Option Nat
  | [] => none
  | (memStart, memSize) :: rest =>
    if offset ≥ memSize / pageSize then extraAddress (offset - memSize / pageSize) rest
    else some (memStart + offset * pageSize)

/-- Free the pages of a process. A page found lent goes to the kernel; the physical address is asked
about as if it were virtual. -/
def releaseAllMemoryForProcess : MM Unit := modify fun s =>
  let owner (phys : Nat) : Option PID := if s.pageIsLent phys then some pid1 else none
  { s with mem := { s.mem with
      allocations := fun i =>
        if i < s.mem.ramSize / pageSize ∧ s.mem.allocations i = some pid then
          owner (s.mem.ramStart + i * pageSize)
        else s.mem.allocations i
      extraAllocations := fun i =>
        match extraAddress i s.mem.extraRegions with
        | some phys => if s.mem.extraAllocations i = some pid then owner phys
            else s.mem.extraAllocations i
        | none => s.mem.extraAllocations i } }

end BaochipXous.Kernel
