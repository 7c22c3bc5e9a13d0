import BaochipXous.KernelScheduler

/-!
Servers and the connections to them, the beginning and the end of a process, and the system calls
that send, receive and answer messages. What a call has done when it fails stays done, unless the
source undoes it.
-/

namespace BaochipXous.Kernel

open Prog Function

section

def connectionCount : Nat := 32

variable (s : KState) (sid : SID)

def KState.existingConnection : Option Nat :=
  (List.range connectionCount).find? fun i =>
    match s.connections s.core.machine.satp i with
    | some serverIdx => decide (2 ≤ serverIdx) && (s.serverAt (serverIdx - 2)).any (·.sid = sid)
    | none => false

def KState.serverNamed : Option Nat :=
  (List.range maxServerCount).find? fun i => (s.servers i).any (·.sid = sid)

/-- The connections of the active process belong to the current process. -/
def connectionsCurrent : KM Unit := do
  let m ← gets fun s => s.core.machine
  assert (m.current = (m.arch m.satp).pid)

def updateConnectionMap (f : (Nat → Option Nat) → Nat → Option Nat) : KM Unit := modify fun s =>
  { s with
    connections := update s.connections s.core.machine.satp
      (f (s.connections s.core.machine.satp)) }

def connectToServer : KM Nat := do
  connectionsCurrent
  let s ← get
  match s.existingConnection sid with
  | some connectionIdx => pure (connectionIdx + 2)
  | none => do
    let slotIdx ← ofOption .outOfMemory
      ((List.range connectionCount).find? fun i =>
        (s.connections s.core.machine.satp i).isNone)
    match s.serverNamed sid with
    | some serverIdx => do
      updateConnectionMap (update · slotIdx (some (serverIdx + 2)))
      pure (slotIdx + 2)
    | none => fail .serverNotFound

def connectProcessToServer (targetPid : PID) (sid : SID) : KM Nat := do
  let originalPid ← withCore currentPid
  let _ ← withCore (getProcess targetPid)
  withCore (activateProcess targetPid)
  let result ← attempt (connectToServer sid)
  let _ ← withCore (getProcess originalPid)
  withCore (activateProcess originalPid)
  ofExcept result

def disconnectFromServer (cid : Nat) : KM Unit := do
  if cid < 2 then fail .serverNotFound
  else
    let slotIdx := cid - 2
    connectionsCurrent
    let s ← get
    if connectionCount ≤ slotIdx then fail .serverNotFound
    else if (s.connections s.core.machine.satp slotIdx).isNone then fail .serverNotFound
    else updateConnectionMap (update · slotIdx none)

variable (pid : PID)

/-- The server slot that a connection of a process leads to. -/
def KState.resolve (cid : Nat) : Option Nat :=
  if cid < 2 ∨ connectionCount ≤ cid - 2 then none
  else
    match s.connections pid (cid - 2) with
    | none => none
    | some serverIdx =>
      if serverIdx < 2 ∨ maxServerCount ≤ serverIdx - 2 then none else some (serverIdx - 2)

def sidxFromCid (cid : Nat) : KM (Option Nat) := do
  if cid < 2 then pure none
  else
    connectionsCurrent
    let s ← get
    pure (s.resolve s.core.machine.satp cid)

def KState.sidxFromSid : Option Nat :=
  (List.range maxServerCount).find? fun i =>
    (s.servers i).any fun server => decide (server.pid = pid ∧ server.sid = sid)

def createServerWithAddress (sid : SID) (connect : Bool) : KM (SID × Nat) := do
  let process ← withCore (getProcess pid)
  assert (process.ppid.get = 1)
  let s ← get
  match (List.range maxServerCount).find? fun i => (s.servers i).isNone with
  | none => fail .serverNotFound
  | some entry => do
    let virt ← withCore (withMachine (mapZeroedPage pid false))
    let backing ← ofExcept (MemoryRange.new virt pageSize)
    modify fun s => s.setServer entry (some (Server.init pid sid backing.asPtr queueSlots))
    if connect then
      let cid ← connectToServer sid
      pure (sid, cid)
    else pure (sid, 0)

def destroyEntry : QueuedMessage → CM Unit
  | .waitingForget .. | .waitingReturnMemory .. | .waitingReturnScalar .. => halt
  | .empty | .scalarMessage .. => pure ()
  | .memoryMessageSend _ _ _ _ _ serverAddr bufSize _ _ =>
    unwrap (withMachine (unmapPages serverAddr bufSize))
  | .blockingScalarTerminated pid tid .. | .blockingScalarMessage pid tid .. => do
    unwrap (setThreadResult pid tid (.error .serverNotFound))
    unwrap (readyThread pid tid)
  | .memoryMessageROLend pid tid _ clientAddr _ serverAddr bufSize _ _
  | .memoryMessageRWLend pid tid _ clientAddr _ serverAddr bufSize _ _
  | .memoryMessageROLendTerminated pid tid _ clientAddr _ serverAddr bufSize _ _
  | .memoryMessageRWLendTerminated pid tid _ clientAddr _ serverAddr bufSize _ _ => do
    let _ ← unwrap (returnMemoryTo serverAddr pid clientAddr bufSize)
    unwrap (readyThread pid tid)
    unwrap (setThreadResult pid tid (.error .serverNotFound))

/-- `Server::destroy`, once no message is found in the server. -/
def destroyQueue (server : Server) : CM Unit := do
  forEach server.queue destroyEntry
  let serverPid ← currentPid
  forEach ((List.range 32).filter fun t => server.readyThreads.getLsbD t) fun serverTid => do
    unwrap (readyThread serverPid serverTid)
    unwrap (setThreadResult serverPid serverTid (.error .serverNotFound))
  -- the length is the number of slots, so this is one page
  forEach (pages server.backing (wadd server.backing server.queue.length)) fun addr => do
    let _ ← unwrap (withMachine (unmapPage addr))

def allPids : List PID := (List.range maxProcessCount).filterMap fun i => PID.new (i + 1)

def replaceConnections (sidx : Nat) (entry : Option Nat) (connections : Nat → Option Nat) :
    Nat → Option Nat := fun i =>
  if i < connectionCount ∧ connections i = some (sidx + 2) then entry else connections i

def updateConnections (sidx : Nat) (entry : Option Nat) : KM Unit :=
  forEach allPids fun pid => do
    let process ← gets fun s => s.core.processes pid
    when (!process.isFree) do
      withCore (activateProcess pid)
      updateConnectionMap (replaceConnections sidx entry)

def destroyServer (sid : SID) : KM Unit := do
  let s ← get
  let serverIdx ← ofOption .serverNotFound (s.sidxFromSid sid pid)
  match s.servers serverIdx with
  | none => halt
  | some server =>
    if server.queue.any QueuedMessage.isInServer then fail .serverQueueFull
    else
      modify fun s => s.setServer serverIdx none
      withCore (destroyQueue server)
      let pid ← withCore currentPid
      -- the connections become free, not tombstones
      unwrap (updateConnections serverIdx none)
      withCore do
        let _ ← unwrap (getProcess pid)
        unwrap (activateProcess pid)

/-- `Process::terminate`. The address space of the entry is not taken away. -/
def terminateEntry : KM Unit := do
  let process ← gets fun s => s.core.processes pid
  if process.isFree then fail .processNotFound
  else
    withCore (withMachine (releaseAllMemoryForProcess pid))
    modify fun s =>
      { s with
        irqHandlers := fun irq =>
          if (s.irqHandlers irq).any (·.1 = pid) then none else s.irqHandlers irq }
    withCore do
      modify fun s =>
        { s with
          table := update s.table pid false
          woken := update s.woken pid fun _ => false }
      setState pid .free

/-- Mark the connections to a server of the process, and its own messages to any server. -/
def disownServer (targetPid : PID) (idx : Nat) : KM Unit := do
  let s ← get
  match s.servers idx with
  | none => pure ()
  | some server => do
    when (server.pid = targetPid) (updateConnections idx (some 1))
    withCore (activateProcess server.pid)
    modify fun s => s.setServer idx (some (server.discardMessagesForPid targetPid))

def terminateProcess (targetPid : PID) : KM PID := do
  forEach (List.range maxServerCount) (disownServer targetPid)
  modify fun s =>
    { s with
      servers := fun idx =>
        if idx < maxServerCount ∧ (s.servers idx).any (·.pid = targetPid) then none
        else s.servers idx }
  let process ← withCore (getProcess targetPid)
  withCore (activateProcess targetPid)
  terminateEntry targetPid
  withCore (unwrap (switchToThread process.ppid none))
  pure process.ppid

/-- The address space of a new process: its root table, its table of tables, and the pages of the
process itself. -/
def Machine.newSpace (m : Machine) (pid : PID) (root pagesL0 processL0 context : Nat) : Machine :=
  let kernelPage (phys : Nat) : PTE :=
    { ppn := phys / pageSize, valid := true, r := true, w := true, d := true, a := true }
  { m with
    mem := { m.mem with
      l1 := update m.mem.l1 pid fun i => decide (i = 1021 ∨ i = 1022 ∨ i = 1023)
      pt := update m.mem.pt pid fun v =>
        if v = 1021 * 1024 + 1021 then kernelPage pagesL0
        else if v = 1021 * 1024 + 1022 then kernelPage processL0
        else if v = 1022 * 1024 then kernelPage root
        else if v = 1022 * 1024 + 1 then kernelPage context
        else if v / 1024 = 1023 then m.mem.pt m.satp v
        else .zero } }

def allocateMapping : CM Unit := do
  let process ← gets fun s => s.processes pid
  if process.mapped then fail .memoryInUse
  else
    withMachine do
      let current ← gets Machine.current
      let rootVirt ← mapZeroedPage current false
      let root ← unwrap (ofExcept (← gets (Machine.virtToPhys · rootVirt)))
      let pagesL0Virt ← mapZeroedPage current false
      let pagesL0 ← ofExcept (← gets (Machine.virtToPhys · pagesL0Virt))
      let processL0Virt ← mapZeroedPage current false
      let processL0 ← ofExcept (← gets (Machine.virtToPhys · processL0Virt))
      let contextVirt ← mapZeroedPage current false
      let context ← ofExcept (← gets (Machine.virtToPhys · contextVirt))
      modify (Machine.newSpace · pid root pagesL0 processL0 context)
      forEach [root, pagesL0, processL0, context] (movePageRaw · pid)
      forEach [rootVirt, pagesL0Virt, processL0Virt, contextVirt] fun virt => do
        let _ ← unmapPageInner virt
    updateProcess pid fun p => { p with mapped := true }

structure ProcessInit where
  stack : MemoryRange
  text : MemoryRange
  textDestination : MemoryAddress
  start : MemoryAddress

/-- `ArchProcess::create`; `sid` is the random name of the first server. -/
def archProcessCreate (initData : ProcessInit) (sid : SID) : KM Nat := do
  let currentPid ← withCore currentPid
  let _ ← withCore (getProcess pid)
  withCore (withMachine (activateMapping pid))
  unwrap (setupProcess pid
    { call := initData.start.get, stack := initData.stack, arg1 := sid.w0.toNat,
      arg2 := sid.w1.toNat, arg3 := sid.w2.toNat, arg4 := sid.w3.toNat })
  let _ ← createServerWithAddress pid sid false
  let _ ← withCore (getProcess currentPid)
  withCore (withMachine (activateMapping currentPid))
  let cid ← connectProcessToServer currentPid sid
  let _ ← withCore
    (sendMemory initData.text.asPtr pid initData.textDestination.get initData.text.len)
  pure cid

/-- The first free entry of the process table, passing over that of process 4. -/
def KState.freeEntry : Option PID :=
  allPids.find? fun pid => (s.core.processes pid).isFree && decide (pid.get ≠ 4)

def createProcess (initProcess : ProcessInit) (sid : SID) : KM (PID × Nat) := do
  let s ← get
  let newPid ← ofOption .processNotFound s.freeEntry
  withCore (updateProcess newPid fun p => { p with ppid := pid1, state := .allocated })
  match ← attempt (withCore (allocateMapping newPid)) with
  | .error _ => fail .internalError
  | .ok _ => do
    let cid ← unwrap (archProcessCreate newPid initProcess sid)
    withCore (setState newPid (.ready (threadBit initialTid)))
    withCore (noteReady newPid initialTid)
    pure (newPid, cid)

end

/-- `set_last_thread` for the thread that owns the quantum; an error is ignored. -/
def restoreQuantum : KM Unit := do
  let s ← get
  let _ ← attempt (withCore (setLastThread s.originalPid s.originalTid))

/-- Wait without being ready, in favour of the parent process. -/
def waitInParent (pid : PID) (tid : TID) : KM KResult := do
  let process ← withCore (unwrap (getProcess pid))
  modify fun s => { s with switchtoCaller := none }
  let result ← attempt (activateOrProcessNotFound tid process.ppid 0 false .none)
  restoreQuantum
  ofExcept result

def takeSwitchtoCaller : KM (PID × TID) := do
  let s ← get
  match s.switchtoCaller with
  | none => halt
  | some caller => do
    modify fun s => { s with switchtoCaller := none }
    pure caller

def queueServerMessage (sidx : Nat) (pid : PID) (thread : TID) (message : Message)
    (originalAddress : Option MemoryAddress) : KM Nat := do
  let currentPid ← withCore currentPid
  let server ← ofOption .serverNotFound (← gets (KState.serverAt · sidx))
  let _ ← withCore (getProcess server.pid)
  withCore (withMachine (activateMapping server.pid))
  let result ← attempt (withServer halt sidx (Server.queueMessage pid thread message originalAddress))
  let _ ← withCore (unwrap (getProcess currentPid))
  withCore (withMachine (activateMapping currentPid))
  ofExcept result

def rememberServerMessage (sidx : Nat) (currentPid : PID) (currentThread : TID) (message : Message)
    (clientAddress : Option MemoryAddress) : KM Nat := do
  let server ← ofOption .serverNotFound (← gets (KState.serverAt · sidx))
  let _ ← withCore (getProcess server.pid)
  withCore (withMachine (activateMapping server.pid))
  let result ← attempt (withServer halt sidx
    (Server.queueResponse currentPid currentThread message clientAddress))
  let _ ← withCore (unwrap (getProcess currentPid))
  withCore (withMachine (activateMapping currentPid))
  ofExcept result

/-- `return_thread`: a thread that was taken to receive the message waits again. -/
def returnThread (sidx : Nat) : Option TID → KM Unit
  | none => pure ()
  | some tid => withServer halt sidx (Server.returnAvailableThread tid)

def canDeliver (sidx : Nat) (serverPid : PID) (availTid : Option TID) (message : Message) :
    KM Bool := do
  let needsSlot := availTid.isNone || message.isBlocking
  if message.hasMemory then
    if needsSlot then
      let currentPid ← withCore currentPid
      let _ ← onError (returnThread sidx availTid) (withCore (getProcess serverPid))
      withCore (withMachine (activateMapping serverPid))
      let capacity ← withServer halt sidx (gets Server.hasQueueCapacity)
      let _ ← withCore (unwrap (getProcess currentPid))
      withCore (withMachine (activateMapping currentPid))
      pure capacity
    else pure true
  else
    -- only the generations are looked at
    let capacity ← withServer halt sidx (gets Server.hasQueueCapacityScalar)
    pure (!needsSlot || capacity)

/-- The transfer of the memory of a message: the address that it has in the server. -/
def Message.handOver (serverPid : PID) : Message → CM Nat
  | .scalar _ | .blockingScalar _ => pure 0
  | .move msg => sendMemory msg.buf.asPtr serverPid 0 msg.buf.len
  | .mutableBorrow msg => lendMemory msg.buf.asPtr serverPid 0 msg.buf.len true
  | .borrow msg => lendMemory msg.buf.asPtr serverPid 0 msg.buf.len false

def Message.withBuf (buf : MemoryRange) : Message → Message
  | .scalar msg => .scalar msg
  | .blockingScalar msg => .blockingScalar msg
  | .move msg => .move { msg with buf }
  | .mutableBorrow msg => .mutableBorrow { msg with buf }
  | .borrow msg => .borrow { msg with buf }

/-- Hand over the memory of a message; the message as the server sees it. -/
def transferMessage (sidx : Nat) (serverPid : PID) (availableTid : Option TID) (message : Message) :
    KM Message :=
  match message.memory with
  | none => pure message
  | some buf => do
    let newVirt ← onError (returnThread sidx availableTid) (withCore (message.handOver serverPid))
    let newBuf ← onError (returnThread sidx availableTid)
      (ofExcept (MemoryRange.new newVirt buf.len))
    pure (message.withBuf newBuf)

def envelopeFor (sidx idx : Nat) (pid : PID) (message : Message) : MessageEnvelope where
  sender := SenderID.toUsize ⟨sidx, idx, some pid⟩
  body := message

/-- The message goes to the thread `serverTid`, which waits for it. -/
def deliverMessage (pid : PID) (tid : TID) (sidx : Nat) (serverPid : PID) (serverTid : TID)
    (message : Message) (clientAddress : Option MemoryAddress) : KM KResult := do
  onError (returnThread sidx (some serverTid)) (withCore (readyThread serverPid serverTid))
  let isRunnable ← withCore (unwrap (runnable serverPid (some serverTid)))
  if !message.isBlocking then
    withCore (setThreadResult serverPid serverTid
      (.messageEnvelope (envelopeFor sidx 0 pid message)))
    pure .ok
  else if !isRunnable then
    let senderIdx ← onError (returnThread sidx (some serverTid))
      (rememberServerMessage sidx pid tid message clientAddress)
    let (ppid, ptid) ← takeSwitchtoCaller
    let result ← attempt (onError (returnThread sidx (some serverTid))
      (activateOrProcessNotFound tid ppid ptid false
        (.setThreadResult (.messageEnvelope (envelopeFor sidx senderIdx pid message)))))
    restoreQuantum
    ofExcept result
  else
    match ← attempt (activateProcessThread tid serverPid serverTid false
        (.rememberServerMessage sidx pid tid message clientAddress)) with
    | .ok senderIdx => pure (.messageEnvelope (envelopeFor sidx senderIdx pid message))
    | .error _ => do
      returnThread sidx (some serverTid)
      fail .processNotFound

def sendMessage (pid : PID) (tid : TID) (cid : Nat) (message : Message) : KM KResult := do
  let sidx ← ofOption .serverNotFound (← sidxFromCid cid)
  match ← gets (KState.serverAt · sidx) with
  | none => halt
  | some server => do
    let clientAddress := message.memory.map MemoryRange.addr
    let availableTid ← withServer halt sidx Server.takeThread
    let deliverable ← canDeliver sidx server.pid availableTid message
    -- the thread that was taken is not given back here
    if !deliverable then fail .serverQueueFull
    else
      let message ← transferMessage sidx server.pid availableTid message
      match availableTid with
      | some serverTid => deliverMessage pid tid sidx server.pid serverTid message clientAddress
      | none => do
        let _ ← queueServerMessage sidx pid tid message clientAddress
        if message.isBlocking then waitInParent pid tid else pure .ok

end BaochipXous.Kernel
