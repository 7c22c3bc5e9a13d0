import BaochipXous.KernelServer

/-!
The state of the kernel, threads and the process that runs, the activation of a thread of the same
or of another process, and memory that is moved, lent and given back. The functions follow the
source statement by statement, since what a failing call leaves depends on their order.
-/

namespace BaochipXous.Kernel

open Prog

structure ThreadInit where
  call : Nat
  stack : MemoryRange
  arg1 : Nat
  arg2 : Nat
  arg3 : Nat
  arg4 : Nat
  deriving DecidableEq

inductive ProcessState where
  | free
  | allocated
  | setup (init : ThreadInit)
  | ready (threads : ThreadMask)
  | running (threads : ThreadMask)
  | sleeping
  | exception (threads : ThreadMask)
  | blockedException (threads : ThreadMask)
  deriving DecidableEq

/-- An entry of the process table. Its `pid` is its position; its exception handler is never set. -/
structure Process where
  /-- The entry has an address space. -/
  mapped : Bool
  state : ProcessState
  ppid : PID
  currentThread : TID
  previousThread : TID

def Process.isFree (p : Process) : Bool := decide (p.state = .free)

def maxProcessCount : Nat := 64
def maxServerCount : Nat := 128
def maxThread : TID := 31
def exceptionTid : TID := 1
def initialTid : TID := 2

def queueSlots : Nat := 128

/-- The results of the modelled system calls. -/
inductive KResult where
  | ok
  | error (e : Error)
  | memoryRange (range : MemoryRange)
  | resumeProcess
  | connectionID (cid : Nat)
  | newServerID (sid : SID) (cid : Nat)
  | messageEnvelope (envelope : MessageEnvelope)
  | threadID (tid : TID)
  | scalar1 (a : Nat)
  | scalar2 (a b : Nat)
  | retryCall
  | none
  | memoryReturned (offset valid : Option MemorySize)
  | newProcess (pid : PID) (cid : Nat)
  | scalar5 (a b c d e : Nat)

/-- The words that a result takes up in the registers of a thread; those left out are zero. -/
def KResult.toArgs : KResult → List Nat
  | ok => [0]
  | error e => [1, e.toUsize]
  | memoryRange range => [3, range.asPtr, range.len]
  | resumeProcess => [5]
  | connectionID cid => [7, cid]
  | newServerID sid cid =>
    [8, sid.w0.toNat, sid.w1.toNat, sid.w2.toNat, sid.w3.toNat, cid]
  | messageEnvelope envelope => 9 :: envelope.sender :: envelope.body.toUsize
  | threadID tid => [10, tid]
  | scalar1 a => [14, a]
  | scalar2 a b => [15, a, b]
  | retryCall => [16]
  | none => [17]
  | memoryReturned offset valid => [18, NonZero.orZero offset, NonZero.orZero valid]
  | newProcess pid cid => [19, pid.get, cid]
  | scalar5 a b c d e => [20, a, b, c, d, e]

/-- What the scheduler works on. -/
structure Core where
  machine : Machine
  processes : PID → Process
  /-- Which processes `PROCESS_TABLE` has set up. -/
  table : PID → Bool
  /-- History, read by no function: the threads made ready and since then neither scheduled nor
  destroyed. -/
  woken : PID → TID → Bool

abbrev CM (α : Type) := Prog Error Core α

def withMachine {α : Type} (m : MM α) : CM α :=
  zoom Core.machine (fun s machine => { s with machine }) m

/-- The kernel. -/
structure KState where
  core : Core
  /-- For each process and each of its 32 connections: nothing, the tombstone 1, or a server slot
  plus two. -/
  connections : PID → Nat → Option Nat
  servers : Nat → Option Server
  /-- The process, the address and the argument of each interrupt handler. -/
  irqHandlers : Nat → Option (PID × Nat × Nat)
  irqEnabled : Bool
  handlingIrq : Bool
  /-- The interrupted thread, while an interrupt is handled. -/
  previousPair : Option (PID × TID)
  switchtoCaller : Option (PID × TID)
  originalPid : PID
  originalTid : TID
  nsTofu : Bool

abbrev KM (α : Type) := Prog Error KState α

def withCore {α : Type} (m : CM α) : KM α :=
  zoom KState.core (fun s core => { s with core }) m

def currentPid : CM PID := gets fun s => s.machine.current

namespace Core

def setProcess (s : Core) (pid : PID) (p : Process) : Core :=
  { s with processes := Function.update s.processes pid p }

def setWoken (s : Core) (pid : PID) (tid : TID) (b : Bool) : Core :=
  { s with
    woken := Function.update s.woken pid (Function.update (s.woken pid) (tid % 32) b) }

end Core

def getProcess (pid : PID) : CM Process := do
  let p ← gets fun s => s.processes pid
  if maxProcessCount < pid.get ∨ !p.mapped ∨ p.isFree then fail .processNotFound
  else pure p

def updateProcess (pid : PID) (f : Process → Process) : CM Unit :=
  modify fun s => s.setProcess pid (f (s.processes pid))

def updateArch (f : ArchProcess → ArchProcess) : CM Unit :=
  withMachine (modify (Machine.updateArch · f))

namespace KState

def setServer (s : KState) (sidx : Nat) (server : Option Server) : KState :=
  { s with servers := Function.update s.servers sidx server }

def serverAt (s : KState) (sidx : Nat) : Option Server :=
  if sidx < maxServerCount then s.servers sidx else none

end KState

/-- Run a program of a server's queue; `missing` is run if there is no such server. -/
def withServer {α : Type} (missing : KM α) (sidx : Nat) (m : Prog Error Server α) : KM α := fun s =>
  match s.serverAt sidx with
  | none => missing s
  | some server => zoom (fun _ => server) (fun s server => s.setServer sidx (some server)) m s

section

/-- `Process::current()`: the active address space is that of the current process. -/
def archProcessCurrent : CM Unit := do
  let m ← gets Core.machine
  assert (m.current = m.satp)

variable (tid : TID)

def fixupIrq : TID := if tid = 255 then 0 else tid

def setTid : CM Unit := do
  assert (fixupIrq tid < maxThread)
  updateArch fun a => { a with hardwareThread := fixupIrq tid + 1 }

def updateThread (f : Thread → Thread) : CM Unit := do
  assert (fixupIrq tid < maxThread)
  updateArch fun a =>
    { a with threads := Function.update a.threads (fixupIrq tid) (f (a.threads (fixupIrq tid))) }

/-- The eight words of a result go into the registers from `a0` on. -/
def Thread.setResult (result : KResult) (t : Thread) : Thread :=
  { t with registers := fun r =>
      if 9 ≤ r ∧ r < 17 then result.toArgs.getD (r - 9) 0 else t.registers r }

/-- `invoke`: the frame of a call that returns to `retAddr`. -/
def Thread.invoke (pc sp retAddr : Nat) (args : List Nat) (t : Thread) : Thread where
  sepc := pc
  registers := fun r =>
    if r = 0 then retAddr
    else if r = 1 then sp
    else if 9 ≤ r ∧ r < 9 + args.length then args.getD (r - 9) 0
    else t.registers r

def archProcessSetThreadResult (result : KResult) : CM Unit :=
  updateThread tid (Thread.setResult result)

def exitThread : Nat := 0xff803000
def setupThread (newTid : TID) (setup : ThreadInit) : CM Unit := do
  assert (fixupIrq newTid < maxThread)
  let sp := wadd setup.stack.asPtr setup.stack.len
  if sp ≤ 16 then fail .badAddress
  else
    updateThread newTid fun _ => Thread.invoke setup.call ((sp - 16) - (sp - 16) % 16) exitThread
      [setup.arg1, setup.arg2, setup.arg3, setup.arg4] .zero

variable (pid : PID)

def activateProcess : CM Unit := do
  let tableEntry ← gets fun s => s.table pid
  assert (pid.get ≤ maxProcessCount && tableEntry)
  withMachine (modify fun m => { m with current := pid, satp := pid })

def noteReady (tid : TID) : CM Unit := modify (Core.setWoken · pid tid true)

def noteTaken (tid : TID) : CM Unit := modify (Core.setWoken · pid tid false)

def hasThread (mask : ThreadMask) (tid : TID) : Bool := decide (mask &&& threadBit tid ≠ 0)

def addThread (mask : ThreadMask) (tid : TID) : ThreadMask := mask ||| threadBit tid

def removeThread (mask : ThreadMask) (tid : TID) : ThreadMask := mask &&& ~~~threadBit tid

def setState (state : ProcessState) : CM Unit :=
  updateProcess pid fun p => { p with state }

def setCurrentThread (tid : TID) : CM Unit :=
  updateProcess pid fun p => { p with currentThread := tid }

def trailingZeros (v : ThreadMask) : Nat :=
  [0, 1, 28, 2, 29, 14, 24, 3, 30, 22, 20, 15, 25, 17, 4, 8, 31, 27, 13, 23, 21, 19, 16, 7, 26,
    12, 18, 6, 11, 5, 10, 9].getD (((~~~(v - 1) &&& v) * 0x077CB531#32) >>> 27).toNat 0

def findNextThread (threadMask : ThreadMask) (currentThread : TID) : CM TID := do
  assert (threadMask ≠ 0)
  if threadMask &&& (threadMask - 1) = 0 then pure (trailingZeros threadMask)
  else
    let upperBits := threadMask &&& ~~~((2#32 <<< (currentThread % 32)) - 1)
    if upperBits ≠ 0 then pure (trailingZeros upperBits) else pure (trailingZeros threadMask)

def readyThread (tid : TID) : CM Unit := do
  let process ← getProcess pid
  match process.state with
  | .running x =>
    if hasThread x tid then halt
    else
      setState pid (.running (addThread x tid))
      noteReady pid tid
  | .ready x =>
    if hasThread x tid then halt
    else
      setState pid (.ready (addThread x tid))
      noteReady pid tid
  | .sleeping => do
    setState pid (.ready (threadBit tid))
    noteReady pid tid
  | .exception readyThreads | .blockedException readyThreads => do
    -- the thread is not recorded
    setState pid (.exception readyThreads)
    noteReady pid tid
  | _ => halt

def setLastThread (tid : TID) : CM Unit := do
  let process ← getProcess pid
  match process.state with
  | .ready runnable =>
    if hasThread runnable tid then setCurrentThread pid tid else fail .threadNotAvailable
  | .sleeping => fail .threadNotAvailable
  | .running _ => halt
  | _ => fail .processNotFound

def givenOrNext (tid : Option TID) (threadMask : ThreadMask) (currentThread : TID) : CM TID :=
  match tid with
  | some tid => pure tid
  | none => findNextThread threadMask currentThread

def switchToThread (tid : Option TID) : CM Unit := do
  let process ← getProcess pid
  match process.state with
  | .free | .sleeping | .allocated => fail .processNotFound
  | .blockedException _ => halt
  | .exception _ => do
    activateProcess pid
    archProcessCurrent
    setTid exceptionTid
  | .setup setup => do
    activateProcess pid
    assert (tid.all (· = initialTid))
    archProcessCurrent
    setupThread initialTid setup
    setTid initialTid
    updateArch fun a => { a with pid := pid }
    setCurrentThread pid initialTid
    setState pid (.running 0)
    noteTaken pid initialTid
  | .ready readyThreads => do
    assert (readyThreads ≠ 0)
    let newThread ← givenOrNext tid readyThreads process.currentThread
    assert (hasThread readyThreads newThread)
    activateProcess pid
    archProcessCurrent
    setTid newThread
    setCurrentThread pid newThread
    setState pid (.running (removeThread readyThreads newThread))
    noteTaken pid newThread
  | .running readyThreads => do
    let readyThreads := addThread readyThreads process.currentThread
    let newThread ← givenOrNext tid readyThreads process.currentThread
    if !hasThread readyThreads newThread then fail .invalidThread
    else
      archProcessCurrent
      setTid newThread
      setCurrentThread pid newThread
      setState pid (.running (removeThread readyThreads newThread))
      noteReady pid process.currentThread
      noteTaken pid newThread

def runnable (tid : Option TID) : CM Bool := do
  let process ← getProcess pid
  match tid with
  | some tid =>
    pure (match process.state with
      | .running x => decide (tid = process.currentThread) || hasThread x tid
      | .ready x => hasThread x tid
      | .sleeping => true
      | _ => false)
  | none =>
    pure (match process.state with
      | .running _ | .ready _ | .sleeping => true
      | _ => false)

def setThreadResult (tid : TID) (result : KResult) : CM Unit := do
  let currentPid ← currentPid
  if currentPid = pid then
    archProcessCurrent
    archProcessSetThreadResult tid result
  else
    let _ ← getProcess pid
    activateProcess pid
    archProcessCurrent
    archProcessSetThreadResult tid result
    let _ ← unwrap (getProcess currentPid)
    activateProcess currentPid

def irqTid : TID := 0

/-- `SysCallNumber::JoinThread`. -/
def joinThread : Nat := 36

/-- `destroy_thread` of the process data: the context is cleared, and its `a0` is the result. -/
def archProcessDestroyThread : CM Nat := do
  assert (fixupIrq tid < maxThread)
  let m ← gets Core.machine
  let thread := (m.arch m.satp).threads (fixupIrq tid)
  if thread.sepc = 0 ∨ tid = irqTid then fail .threadNotAvailable
  else
    updateThread tid fun _ => .zero
    pure (thread.registers 9)

def Machine.findThread (m : Machine) (op : TID → Thread → Bool) : Option TID :=
  (List.range maxThread).find? fun tid =>
    let thread := (m.arch m.satp).threads tid
    thread.sepc != 0 && op tid thread

/-- The last part of `destroy_thread`: the process is ready or asleep, and another thread runs. -/
def leaveThread (waitingThreads : ThreadMask) : CM Bool := do
  let process ← getProcess pid
  let newPid := if waitingThreads = 0 then process.ppid else pid
  setState pid (if waitingThreads = 0 then .sleeping else .ready waitingThreads)
  switchToThread newPid none
  pure (newPid != pid)

def destroyThread (tid : TID) : CM Bool := do
  let currentPid ← currentPid
  assert (pid = currentPid)
  let process ← getProcess pid
  match process.state with
  | .running waitingThreads => do
    archProcessCurrent
    let returnValue ← attempt (archProcessDestroyThread tid)
    noteTaken pid tid
    let m ← gets Core.machine
    match m.findThread fun waitingTid thr => !hasThread waitingThreads waitingTid &&
        thr.registers 9 == joinThread && thr.registers 10 == tid with
    | some waitingTid => do
      setThreadResult pid waitingTid (.scalar1 (returnValue.toOption.getD 0))
      noteReady pid waitingTid
      leaveThread pid (addThread waitingThreads waitingTid)
    | none => leaveThread pid waitingThreads
  | _ => halt

end

def ArchProcess.fresh (pid : PID) (threadInit : ThreadInit) (lastTidAllocated : Nat) :
    ArchProcess where
  hardwareThread := initialTid + 1
  memDefaultBase := defaultBase
  memDefaultLast := defaultBase
  memMessageBase := defaultMessageBase
  memMessageLast := defaultMessageBase
  memHeapBase := defaultHeapBase
  memHeapSize := 0
  memHeapMax := 512 * 1024
  pid := pid
  lastTidAllocated := lastTidAllocated
  threads := Function.update (fun _ => Thread.zero) initialTid
    { sepc := threadInit.call
      registers := fun r =>
        if r = 1 then wadd threadInit.stack.asPtr threadInit.stack.len
        else if r < 9 then 0
        else [threadInit.arg1, threadInit.arg2, threadInit.arg3, threadInit.arg4].getD (r - 9) 0 }

def setupProcess (pid : PID) (threadInit : ThreadInit) : KM Unit := do
  let s ← gets KState.core
  assert (pid = s.machine.satp)
  assert (pid.get ≤ maxProcessCount && !s.table pid)
  withCore do
    modify fun s => { s with table := Function.update s.table pid true }
    updateArch fun a => .fresh pid threadInit a.lastTidAllocated
  modify fun s => { s with connections := Function.update s.connections pid fun _ => none }
  let initSp := threadInit.stack.asPtr - threadInit.stack.asPtr % pageSize
  when (initSp ≠ 0) do
    let _ ← unwrap (withCore (withMachine
      (reserveRange initSp threadInit.stack.len { r := true, w := true })))
    pure ()

/-- What is done in the address space of the activated process. -/
inductive PostActivateOp where
  | none
  | setThreadResult (result : KResult)
  | rememberServerMessage (sidx : Nat) (currentPid : PID) (currentThread : TID) (message : Message)
      (clientAddress : Option MemoryAddress)

/-- The operation on the activated process: the index of a reply token, if it made one. -/
def PostActivateOp.perform (newTid : TID) : PostActivateOp → KM (Option Nat)
  | .none => pure Option.none
  | .setThreadResult result => do
    withCore archProcessCurrent
    withCore (archProcessSetThreadResult newTid result)
    pure Option.none
  | .rememberServerMessage sidx currentPid currentThread message clientAddress => do
    let idx ← withServer halt sidx
      (Server.queueResponse currentPid currentThread message clientAddress)
    pure (some idx)

def chooseThread (newPid : PID) (newTid : TID) : CM TID := do
  let new ← getProcess newPid
  match new.state with
  | .free | .sleeping | .blockedException _ => fail .processNotFound
  | .setup _ | .allocated => pure initialTid
  | .exception _ => pure exceptionTid
  | .ready x => do
    assert (x ≠ 0)
    let newTid ← givenOrNext (if newTid = 0 then none else some newTid) x new.currentThread
    if !hasThread x newTid then fail .processNotFound
    else
      setCurrentThread newPid newTid
      pure newTid
  | .running _ => halt

def markRunning (newPid : PID) (newTid : TID) : ProcessState → KM Unit
  | .setup threadInit => do
    unwrap (setupProcess newPid threadInit)
    withCore (updateArch fun a => { a with pid := newPid })
    withCore (setState newPid (.running 0))
  | .allocated => do
    withCore (updateArch fun a => { a with pid := newPid })
    withCore (setState newPid (.running 0))
  | .free | .blockedException _ => halt
  | .ready x | .running x => withCore (setState newPid (.running (removeThread x newTid)))
  | .sleeping => withCore (setState newPid (.running 0))
  | .exception _ => pure ()

def enterProcess (newPid : PID) (newTid : TID) : KM Unit := do
  let new ← withCore (getProcess newPid)
  withCore (withMachine (activateMapping newPid))
  markRunning newPid newTid new.state
  withCore (noteTaken newPid newTid)
  withCore (activateProcess newPid)

def leaveProcess (previousPid : PID) (previousTid : TID) (canResume : Bool) : CM Unit := do
  let previous ← unwrap (getProcess previousPid)
  setCurrentThread previousPid previousTid
  match previous.state with
  | .running x =>
    if canResume then
      setState previousPid (.ready (addThread x previousTid))
      noteReady previousPid previousTid
    else if x = 0 then setState previousPid .sleeping
    else setState previousPid (.ready x)
  | .exception readyThreads =>
    if canResume then pure () else setState previousPid (.blockedException readyThreads)
  | _ => halt

/-- Another thread of the running process takes over. -/
def switchWithinProcess (pid : PID) (newTid : TID) (canResume : Bool) : CM TID := do
  let new ← getProcess pid
  match new.state with
  | .running x => do
    assert (!hasThread x new.currentThread)
    let x := if canResume then addThread x new.currentThread else x
    let newTid ← givenOrNext (if newTid = 0 then none else some newTid) x new.currentThread
    if !hasThread x newTid then fail .threadNotAvailable
    else
      setCurrentThread pid newTid
      setState pid (.running (removeThread x newTid))
      when canResume (noteReady pid new.currentThread)
      noteTaken pid newTid
      pure newTid
  | _ => halt

def activateProcessThread (previousTid : TID) (newPid : PID) (newTid : TID) (canResume : Bool)
    (lazyArg : PostActivateOp) : KM Nat := do
  let previousPid ← withCore currentPid
  if newPid ≠ previousPid then
    let newTid ← withCore (chooseThread newPid newTid)
    enterProcess newPid newTid
    -- an error here leaves the new process running
    let senderIdx ← lazyArg.perform newTid
    withCore do
      leaveProcess previousPid previousTid canResume
      archProcessCurrent
      setTid newTid
    pure (senderIdx.getD newTid)
  else
    let senderIdx ← lazyArg.perform newTid
    let _ ← withCore (getProcess newPid)
    if previousTid = newTid then
      assert canResume
      withCore do
        archProcessCurrent
        setTid newTid
        setCurrentThread newPid newTid
      pure newTid
    else
      let newTid ← withCore (switchWithinProcess newPid newTid canResume)
      withCore do
        archProcessCurrent
        setTid newTid
      pure (senderIdx.getD newTid)

/-- `activate_process_thread` whose errors the caller replaces by one of its own. -/
def activateOrProcessNotFound (previousTid : TID) (newPid : PID) (newTid : TID) (canResume : Bool)
    (lazyArg : PostActivateOp) : KM KResult := do
  match ← attempt (activateProcessThread previousTid newPid newTid canResume lazyArg) with
  | .ok _ => pure .resumeProcess
  | .error _ => fail .processNotFound

def keepError {σ α : Type} (error : Option Error) (m : Prog Error σ α) :
    Prog Error σ (Option Error) := do
  match ← attempt m with
  | .ok _ => pure error
  | .error e => pure (some e)

/-- The common part of `send_memory` and `lend_memory`: every page is made to exist and is handed
over by `page`. -/
def transferMemory (srcVirt : Nat) (destPid : PID) (destVirt len : Nat)
    (page : PID → Nat → Nat → MM Unit) : CM Nat := do
  let currentPid ← currentPid
  if currentPid = destPid then
    withMachine (forEach (pages 0 len) fun offset => ensurePageExistsInner (wadd srcVirt offset))
    pure srcVirt
  else
    let _ ← getProcess currentPid
    let _ ← getProcess destPid
    withMachine do
      activateMapping destPid
      match ← attempt (findVirtualAddress destVirt len .messages) with
      | .error e => do
        activateMapping currentPid
        fail e
      | .ok destVirt => do
        activateMapping currentPid
        let error ← foldEach (pages 0 len) none fun error offset => do
          assert (wadd srcVirt offset % pageSize = 0)
          assert (wadd destVirt offset % pageSize = 0)
          ensurePageExistsInner (wadd srcVirt offset)
          keepError error (page currentPid (wadd srcVirt offset) (wadd destVirt offset))
        -- an error of a page that was found to exist stops the kernel
        assert error.isNone
        pure destVirt

def sendMemory (srcVirt : Nat) (destPid : PID) (destVirt len : Nat) : CM Nat :=
  if len = 0 ∨ len % pageSize ≠ 0 ∨ srcVirt % pageSize ≠ 0 ∨ destVirt % pageSize ≠ 0 then
    fail .badAddress
  else if saturatingAdd destVirt len > userAreaEnd then fail .badAddress
  else transferMemory srcVirt destPid destVirt len fun srcPid src dest =>
    movePage srcPid srcPid src destPid destPid dest

def lendMemory (srcVirt : Nat) (destPid : PID) (destVirt len : Nat) (isMutable : Bool) : CM Nat :=
  if len = 0 then fail .badAddress
  else if len % pageSize ≠ 0 ∨ srcVirt % pageSize ≠ 0 ∨ destVirt % pageSize ≠ 0 then
    fail .badAlignment
  else transferMemory srcVirt destPid destVirt len fun srcPid src dest => do
    let _ ← lendPageInner srcPid src destPid destPid dest isMutable

/-- `SystemServices::return_memory`; the last error is the one returned. -/
def returnMemoryTo (srcVirt : Nat) (destPid : PID) (destVirt len : Nat) : CM Nat := do
  if len = 0 ∨ len % pageSize ≠ 0 ∨ srcVirt % pageSize ≠ 0 ∨ destVirt % pageSize ≠ 0 then
    fail .badAddress
  else
    let currentPid ← currentPid
    if currentPid = destPid then pure srcVirt
    else
      let _ ← getProcess currentPid
      let _ ← getProcess destPid
      let error ← withMachine (foldEach (pages 0 len) none fun error offset =>
        keepError error
          (returnPageInner currentPid (wadd srcVirt offset) destPid (wadd destVirt offset)))
      match error with
      | none => pure destVirt
      | some e => fail e

def unmapPages (virt size : Nat) : MM Unit := do
  let error ← foldEach (pages virt (wadd virt size)) none fun error addr => do
    let this ← keepError none (unmapPage addr)
    pure (error.or this)
  match error with
  | none => pure ()
  | some e => fail e

def mapMemory (pid : PID) (phys virt : Option MemoryAddress) (size : MemorySize)
    (reqFlags : MemoryFlags) : MM MemoryRange := do
  let physPtr := NonZero.orZero phys
  -- a sum that does not fit in a word is rejected as well
  if pid.get ≠ 1 ∧ virt.any fun x => userAreaEnd ≤ x.get + size.get then fail .badAddress
  else if size.get % pageSize ≠ 0 then fail .badAlignment
  else
    let range ← mapRange physPtr (NonZero.orZero virt) size.get pid reqFlags .default
    when (physPtr ≠ 0) do
      forEach (pages range.asPtr (wadd range.asPtr range.len)) fun offset =>
        unwrap (handPageToUser offset)
    pure range

def unmapMemory (range : MemoryRange) : MM Unit :=
  if range.asPtr % pageSize ≠ 0 then fail .badAlignment
  else if userAreaEnd ≤ range.asPtr ∨ userAreaEnd ≤ saturatingAdd range.asPtr range.len then
    fail .badAddress
  else unmapPages range.asPtr range.len

end BaochipXous.Kernel
