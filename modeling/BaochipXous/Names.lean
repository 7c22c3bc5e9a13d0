import BaochipXous.LibProg
import BaochipXous.LibUtf8
import Mathlib.Data.List.AList
import BaochipXous.LibRely

/-!
The name server: a table from names to servers, brokered connections, and `BlockingConnect` requests
held back until a server registers. The kernel is what it answers to the n-th `connect_for_process`
and to the n-th call that creates a server id, and the room that a packed `AuthenticateRequest`
takes. Requests miss their server by a limit below their number, a token that frees a connection
they wait for, or a kernel that refuses a lookup.
-/

namespace BaochipXous.Names

open Prog

section

/-- The bytes of a server name up to its length. -/
abbrev Name := List UInt8

/-- Four words: the id of a server, or a token that was drawn as one. -/
abbrev SID := Fin 4 → UInt32

inductive ConnectError where
  | invalidMemoryBuffer
  | kernelConnectFailure
  | invalidString
  | invalidMessageType
  | serverNotFound

def ConnectError.code : ConnectError → UInt32
  | invalidMemoryBuffer => 1
  | kernelConnectFailure => 2
  | invalidString => 3
  | invalidMessageType => 4
  | serverNotFound => 5

inductive ConnectSuccess where
  | connected (cid : UInt32) (disc : Option SID)
  | wait

inductive KernelAnswer where
  | connectionId (cid : UInt32)
  | other
  | error

structure Kernel where
  connectForProcess : Nat → KernelAnswer
  createServerId : Nat → SID
  /-- The packed length of an `AuthenticateRequest` for a name of so many bytes. -/
  authenticateRequestLen : Nat → Nat

/-- The body of a message with arguments `α` in a scalar one and memory `μ` in the others. -/
inductive Body (α μ : Type) where
  | scalar (args : α)
  | blockingScalar (args : α)
  | move (mem : μ)
  | borrow (mem : μ)
  | mutableBorrow (mem : μ)

namespace Body

variable {α μ : Type}

def isBlocking : Body α μ → Bool
  | mutableBorrow _ | borrow _ | blockingScalar _ => true
  | move _ | scalar _ => false

def hasMemory : Body α μ → Bool
  | mutableBorrow _ | borrow _ | move _ => true
  | blockingScalar _ | scalar _ => false

def memoryMessage : Body α μ → Option μ
  | mutableBorrow mem | borrow mem | move mem => some mem
  | blockingScalar _ | scalar _ => none

def memoryMessageMut : Body α μ → Option μ
  | mutableBorrow mem | move mem => some mem
  | blockingScalar _ | scalar _ | borrow _ => none

end Body

/-- Memory that came with a message: whole pages, of which `valid` bytes are said to be in use. -/
structure Memory where
  buf : List UInt8
  valid : Option Nat
  page : 4096 ≤ buf.length

/-- Memory that holds a packed value, if it can be unpacked. -/
structure Packed (τ : Type) where
  original : Option τ
  len : Nat
  page : 4096 ≤ len

structure Registration where
  name : List UInt8
  connLimit : Option UInt32

structure Disconnect where
  name : List UInt8
  token : SID

structure AuthenticateRequest where
  name : List UInt8
  pubkeyId : List UInt8
  challenge : SID

inductive Return where
  | sid (sid : SID)
  | cid (cid : UInt32) (token : Option SID)
  | authenticateRequest (request : AuthenticateRequest)
  | success
  | failure

inductive Request where
  | register (body : Body Unit (Packed Registration))
  | lookup (body : Body Unit (Packed (List UInt8)))
  | unregister (body : Body SID Unit)
  | disconnect (body : Body Unit (Packed Disconnect))
  | blockingConnect (body : Body Unit Memory)
  | tryConnect (body : Body Unit Memory)

/-- What is known of a registered server. -/
structure Connection where
  sid : SID
  currentConns : UInt32
  maxConns : Option UInt32
  token : Option SID

def hasRoom (maxConns : Option UInt32) (currentConns : UInt32) : Bool :=
  match maxConns with
  | some max => currentConns < max
  | none => true

def Connection.hasFree (entry : Connection) : Bool :=
  hasRoom entry.maxConns entry.currentConns

structure CheckedHashMap where
  map : AList fun _ : Name => Connection

variable (table : CheckedHashMap)

namespace CheckedHashMap

def new : CheckedHashMap := { map := ∅ }

def insert (table : CheckedHashMap) (name : Name) (sid : SID) (maxConns : Option UInt32)
    (token : SID) : CheckedHashMap :=
  { map := table.map.insert name
      { sid := sid, currentConns := 0, maxConns := maxConns, token := some token } }

def findSid (sid : SID) : Option (Name × Connection) :=
  (table.map.entries.find? fun entry => entry.2.sid = sid).map fun entry => (entry.1, entry.2)

def remove (sid : SID) : Option Name × CheckedHashMap :=
  match table.findSid sid with
  | some (name, _) => (some name, { map := table.map.erase name })
  | none => (none, table)

def containsKey (name : Name) : Bool :=
  (table.map.lookup name).isSome

def connect (name : Name) :
    (Option SID × Option SID) × CheckedHashMap :=
  match table.map.lookup name with
  | some entry =>
    match entry.maxConns with
    | some max =>
      if max = 1 then
        if entry.currentConns < 1 then
          ((some entry.sid, entry.token),
            { map := table.map.insert name { entry with currentConns := 1 } })
        else ((none, none), table)
      else if entry.currentConns < max then
        ((some entry.sid, entry.token),
          { map := table.map.insert name
              { entry with currentConns := entry.currentConns + 1 } })
      else ((none, none), table)
    | none =>
      -- the count wraps, and nothing reads it
      ((some entry.sid, entry.token),
        { map := table.map.insert name
            { entry with currentConns := entry.currentConns + 1 } })
  | none => ((none, none), table)

def disconnect (sid : SID) : Option Name × CheckedHashMap :=
  match table.findSid sid with
  | some (name, mapping) =>
    if 0 < mapping.currentConns then
      (some name,
        { map := table.map.insert name
            { mapping with currentConns := mapping.currentConns - 1 } })
    else (some name, table)
  | none => (none, table)

/-- Free the connections of the name if the token is the one given out for it; `fresh` is the token
for the next time. -/
def disconnectWithToken (name : Name) (token fresh : SID) :
    Bool × CheckedHashMap :=
  match table.map.lookup name with
  | some entry =>
    if entry.token = some token then
      (true,
        { map := table.map.insert name { entry with currentConns := 0, token := some fresh } })
    else (false, table)
  | none => (false, table)

end CheckedHashMap

/-- What a sender gets back. -/
inductive Answer where
  | words (ws : List UInt32)
  | packed (value : Return)
  | scalar (value : Nat)
  /-- The memory as it came. -/
  | returned

/-- A request to connect, with its number among the requests received. -/
structure MessageEnvelope where
  id : Nat
  body : Body Unit Memory

structure State where
  nameTable : CheckedHashMap
  waitingConnections : List MessageEnvelope
  /-- How many calls of `connect_for_process` were made, and of `create_server_id`. -/
  connects : Nat
  drawn : Nat
  /-- How many requests came in, and what was answered to which of them. -/
  received : Nat
  answers : List (Nat × Answer)

def State.new : State where
  nameTable := .new
  waitingConnections := []
  connects := 0
  drawn := 0
  received := 0
  answers := []

abbrev M := Prog ConnectError State

def answer (id : Nat) (value : Answer) : M Unit :=
  modify fun s => { s with answers := s.answers ++ [(id, value)] }

/-- Dropping a message gives lent memory back to its sender; moved memory goes to the kernel. -/
def drop {α μ : Type} (id : Nat) (body : Body α μ) (value : Answer) : M Unit :=
  when (body.isBlocking && body.hasMemory) (answer id value)

def unwrapped {τ : Type} : Option τ → M τ
  | some a => pure a
  | none => halt

variable (kernel : Kernel)

def createServerId : M SID := do
  let drawn ← gets (·.drawn)
  modify fun s => { s with drawn := drawn + 1 }
  pure (kernel.createServerId drawn)

def connectForProcess : M KernelAnswer := do
  let connects ← gets (·.connects)
  modify fun s => { s with connects := connects + 1 }
  pure (kernel.connectForProcess connects)

def onTable {τ : Type} (op : CheckedHashMap → τ × CheckedHashMap) : M τ := do
  let table ← gets (·.nameTable)
  modify fun s => { s with nameTable := (op table).2 }
  pure (op table).1

/-- `XousServerName::from_str`: the first 64 bytes, or nothing if they end inside a character. 64
bytes fail an assertion. -/
def fromStr (src : List UInt8) : Option Name :=
  let name := if Utf8.isValid (src.take 64) then src.take 64 else []
  if name.length < 64 then some name else none

def nameString (body : Body Unit Memory) : Except ConnectError (List UInt8) :=
  match body.memoryMessage with
  | none => .error .invalidMessageType
  | some msg =>
    let validBytes := msg.valid.getD msg.buf.length
    if msg.buf.length < validBytes then .error .invalidMemoryBuffer
    else if Utf8.isValid (msg.buf.take validBytes) then .ok (msg.buf.take validBytes)
    else .error .invalidString

def nameFromMsg (body : Body Unit Memory) : M Name := do
  let str ← ofExcept (nameString body)
  unwrapped (fromStr str)

def blockingConnect (env : MessageEnvelope) : M ConnectSuccess := do
  let name ← nameFromMsg env.body
  match ← onTable (·.connect name) with
  | (some serverSid, token) => do
    match ← connectForProcess kernel with
    | .connectionId cid => pure (.connected cid token)
    | _ => do
      let _ ← onTable (·.disconnect serverSid)
      fail .kernelConnectFailure
  | (none, _) => pure .wait

def respondConnectError (msg : MessageEnvelope) (result : ConnectError) : M Unit := do
  let mem ← unwrapped msg.body.memoryMessageMut
  assert (1 < mem.buf.length / 4)
  drop msg.id msg.body (.words [1, result.code])

scoped instance neZero : NeZero 4 := ⟨by decide⟩

def respondConnectSuccess (msg : MessageEnvelope) (cid : UInt32) (disc : Option SID) : M Unit := do
  let mem ← unwrapped msg.body.memoryMessageMut
  assert (5 < mem.buf.length / 4)
  let word := fun i => (disc.map (· i)).getD 0
  drop msg.id msg.body (.words [0, cid, word 0, word 1, word 2, word 3])

/-- Connect the waiting requests for the name, from number `i - 1` down. -/
def connectWaiting (name : Name) : Nat → M Unit
  | 0 => pure ()
  | i + 1 => do
    let waiting ← gets (·.waitingConnections)
    let msg ← unwrapped waiting[i]?
    match ← attempt (nameFromMsg msg.body) with
    | .ok asked => when (asked = name) do
        modify fun s => { s with waitingConnections := s.waitingConnections.eraseIdx i }
        match ← attempt (blockingConnect kernel msg) with
        | .error e => respondConnectError msg e
        | .ok (.connected cid disc) => respondConnectSuccess msg cid disc
        | .ok .wait => halt
    | .error _ => pure ()
    connectWaiting name i

def register (id : Nat) (body : Body Unit (Packed Registration)) : M Unit := do
  let buffer ← unwrapped body.memoryMessageMut
  let registration ← unwrapped buffer.original
  let name ← unwrapped (fromStr registration.name)
  let table ← gets (·.nameTable)
  if table.containsKey name then
    drop id body (.packed .failure)
  else do
    let newSid ← createServerId kernel
    let token ← createServerId kernel
    modify fun s =>
      { s with nameTable := s.nameTable.insert name newSid registration.connLimit token }
    -- the message goes back first, so that its sender can create the server
    drop id body (.packed (.sid newSid))
    let waiting ← gets (·.waitingConnections)
    connectWaiting kernel name waiting.length

def unregister (id : Nat) : Body SID Unit → M Unit
  | .blockingScalar gid => do
    match ← onTable (·.remove gid) with
    | some _ => answer id (.scalar 1)
    | none => answer id (.scalar 0)
  | body => drop id body .returned

/-- The handler of `BlockingConnect` and of `TryConnect`. -/
def handleConnect (tries : Bool) (msg : MessageEnvelope) : M Unit :=
  if ¬msg.body.isBlocking then
    drop msg.id msg.body .returned
  else if ¬msg.body.hasMemory then
    answer msg.id (.scalar 0)
  else do
    match ← attempt (blockingConnect kernel msg) with
    | .error e => respondConnectError msg e
    | .ok (.connected cid disc) => respondConnectSuccess msg cid disc
    | .ok .wait =>
      if tries then respondConnectError msg .serverNotFound
      else modify fun s => { s with waitingConnections := s.waitingConnections ++ [msg] }

def lookup (id : Nat) (body : Body Unit (Packed (List UInt8))) : M Unit := do
  let buffer ← unwrapped body.memoryMessageMut
  let nameStr ← unwrapped buffer.original
  let name ← unwrapped (fromStr nameStr)
  match ← onTable (·.connect name) with
  | (some _, token) => do
    match ← connectForProcess kernel with
    | .error => halt
    | .connectionId cid => drop id body (.packed (.cid cid token))
    | .other => drop id body (.packed .failure)
  | (none, _) => do
    let challenge ← createServerId kernel
    assert (kernel.authenticateRequestLen nameStr.length ≤ buffer.len)
    drop id body (.packed (.authenticateRequest
      { name := nameStr, pubkeyId := List.replicate 20 0, challenge := challenge }))

def disconnect (id : Nat) (body : Body Unit (Packed Disconnect)) : M Unit := do
  let buffer ← unwrapped body.memoryMessageMut
  let request ← unwrapped buffer.original
  let name ← unwrapped (fromStr request.name)
  let drawn ← gets (·.drawn)
  let freed ← onTable (·.disconnectWithToken name request.token (kernel.createServerId drawn))
  -- a new token is drawn just when the old one is used up
  when freed (modify fun s => { s with drawn := drawn + 1 })
  drop id body (.packed (if freed then .success else .failure))

/-- One turn of the server's loop. -/
def handle (request : Request) : M Unit := do
  let id ← gets (·.received)
  modify fun s => { s with received := id + 1 }
  match request with
  | .register body => register kernel id body
  | .lookup body => lookup kernel id body
  | .unregister body => unregister id body
  | .disconnect body => disconnect kernel id body
  | .blockingConnect body => handleConnect kernel false { id := id, body := body }
  | .tryConnect body => handleConnect kernel true { id := id, body := body }

end

open State CheckedHashMap Labelled

def asks (body : Body Unit Memory) : Option Name :=
  match nameString body with
  | .ok str => fromStr str
  | .error _ => none

namespace CheckedHashMap

variable {table : CheckedHashMap} {name : Name} {entry : Connection}

def put (table : CheckedHashMap) (name : Name) (entry : Connection) : CheckedHashMap :=
  { map := table.map.insert name entry }

@[simp] theorem lookup_put : (table.put name entry).map.lookup name = some entry := AList.lookup_insert _

theorem lookup_put_ne {other : Name} (h : other ≠ name) :
    (table.put name entry).map.lookup other = table.map.lookup other := AList.lookup_insert_ne h

theorem connect_of_hasFree (hlookup : table.map.lookup name = some entry) (hfree : entry.hasFree = true) :
    table.connect name = ((some entry.sid, entry.token),
      table.put name { entry with currentConns := entry.currentConns + 1 }) := by
  simp only [connect, hlookup]
  unfold Connection.hasFree hasRoom at hfree
  split at hfree
  · rename_i max hmax
    have hroom : entry.currentConns < max := of_decide_eq_true hfree
    simp only [hmax]
    by_cases hone : max = 1
    · subst hone
      have hzero : entry.currentConns = 0 := UInt32.lt_one_iff.mp hroom
      rw [if_pos rfl, if_pos hroom, hzero]
      rfl
    · rw [if_neg hone, if_pos hroom]
      rfl
  · rename_i hmax
    simp only [hmax]
    rfl

/-- No server's id is given out for a name that is not there or whose server is full. -/
theorem connect_of_full (hfull : ∀ entry, table.map.lookup name = some entry → entry.hasFree = false) :
    table.connect name = ((none, none), table) := by
  unfold connect
  split
  · rename_i entry hlookup
    have hroom := hfull entry hlookup
    unfold Connection.hasFree hasRoom at hroom
    split at hroom
    · rename_i max hmax
      have hnot : ¬entry.currentConns < max := of_decide_eq_false hroom
      simp only [hmax]
      by_cases hone : max = 1
      · rw [if_pos hone, if_neg (hone ▸ hnot)]
      · rw [if_neg hone, if_neg hnot]
    · contradiction
  · rfl

def Distinct (table : CheckedHashMap) : Prop :=
  ∀ name entry name' entry', table.map.lookup name = some entry →
    table.map.lookup name' = some entry' → entry.sid = entry'.sid → name = name'

theorem lookup_of_findSid {sid : SID} (h : table.findSid sid = some (name, entry)) :
    table.map.lookup name = some entry ∧ entry.sid = sid := by
  obtain ⟨⟨name', entry'⟩, hfind, heq⟩ := Option.map_eq_some_iff.mp h
  obtain ⟨rfl, rfl⟩ := Prod.mk.inj heq
  have hsid := List.find?_some hfind
  exact ⟨AList.mem_lookup_iff.mpr (List.mem_of_find?_eq_some hfind), of_decide_eq_true hsid⟩

theorem findSid_of_lookup (hdistinct : table.Distinct) (hlookup : table.map.lookup name = some entry) :
    table.findSid entry.sid = some (name, entry) := by
  cases hfind : table.findSid entry.sid with
  | none =>
    have hall := List.find?_eq_none.mp (Option.map_eq_none_iff.mp hfind)
    exact absurd (decide_eq_true rfl) (hall ⟨name, entry⟩ (AList.mem_lookup_iff.mp hlookup))
  | some found =>
    obtain ⟨name', entry'⟩ := found
    obtain ⟨hlookup', hsid⟩ := lookup_of_findSid hfind
    obtain rfl := hdistinct name' entry' name entry hlookup' hlookup hsid
    rw [hlookup] at hlookup'
    rw [Option.some.inj hlookup']

theorem Distinct.put (hdistinct : table.Distinct) {entry' : Connection}
    (hsid : ∀ other found, other ≠ name → table.map.lookup other = some found →
      found.sid ≠ entry'.sid) : (table.put name entry').Distinct := by
  intro n1 e1 n2 e2 h1 h2 hsame
  by_cases hn1 : n1 = name <;> by_cases hn2 : n2 = name
  · rw [hn1, hn2]
  · subst hn1
    rw [lookup_put] at h1
    rw [lookup_put_ne hn2] at h2
    obtain rfl := Option.some.inj h1
    exact absurd hsame.symm (hsid n2 e2 hn2 h2)
  · subst hn2
    rw [lookup_put] at h2
    rw [lookup_put_ne hn1] at h1
    obtain rfl := Option.some.inj h2
    exact absurd hsame (hsid n1 e1 hn1 h1)
  · rw [lookup_put_ne hn1] at h1
    rw [lookup_put_ne hn2] at h2
    exact hdistinct n1 e1 n2 e2 h1 h2 hsame

theorem Distinct.put_same (hdistinct : table.Distinct) (hlookup : table.map.lookup name = some entry)
    {entry' : Connection} (hsid : entry'.sid = entry.sid) : (table.put name entry').Distinct :=
  hdistinct.put fun other found hother hfound hsame =>
    hother (hdistinct other found name entry hfound hlookup (hsame.trans hsid))

end CheckedHashMap

def State.ids (s : State) : List Nat :=
  s.answers.map Prod.fst ++ s.waitingConnections.map (·.id)

/-- The request was received, and neither answered nor put to wait. -/
def Pending (id : Nat) (s : State) : Prop :=
  id < s.received ∧ id ∉ s.ids

/-- What holds between two requests; while the requests for the name `hole` are being connected, they
are left out. -/
structure Sound (hole : Option Name) (s : State) : Prop where
  nodup : s.ids.Nodup
  bound : ∀ id ∈ s.ids, id < s.received
  distinct : s.nameTable.Distinct
  named : ∀ msg ∈ s.waitingConnections, (asks msg.body).isSome
  full : ∀ msg ∈ s.waitingConnections, ∀ name entry, asks msg.body = some name →
    some name ≠ hole → s.nameTable.map.lookup name = some entry → entry.hasFree = false

variable {hole : Option Name} {s : State} {id : Nat} {kernel : Kernel}

theorem Sound.answer (h : Sound hole s) (hid : Pending id s) (value : Answer) :
    Sound hole { s with answers := s.answers ++ [(id, value)] } := by
  have hperm : ids { s with answers := s.answers ++ [(id, value)] } = s.answers.map Prod.fst ++
      id :: s.waitingConnections.map (·.id) := by simp [ids]
  have hids : (s.answers.map Prod.fst ++ id :: s.waitingConnections.map (·.id)).Perm (id :: s.ids) :=
    List.perm_middle
  constructor
  · rw [hperm, hids.nodup_iff]
    exact List.nodup_cons.mpr ⟨hid.2, h.nodup⟩
  · intro other hother
    rw [hperm, hids.mem_iff, List.mem_cons] at hother
    rcases hother with rfl | hother
    · exact hid.1
    · exact h.bound other hother
  · exact h.distinct
  · exact h.named
  · exact h.full

theorem drop_total {α μ : Type} (body : Body α μ) (value : Answer) (h : Sound hole s) (hid : Pending id s) :
    Total (drop id body value) (fun _ s' => Sound hole s' ∧
      s' = { s with answers := s'.answers }) (fun _ _ => False) s := by
  rw [drop, total_when]
  exact ⟨fun _ => ⟨h.answer hid value, rfl⟩, fun _ => ⟨h, rfl⟩⟩

variable {i : Nat} {msg : MessageEnvelope}

theorem Sound.take (h : Sound hole s) (hmsg : s.waitingConnections[i]? = some msg) :
    Sound hole { s with waitingConnections := s.waitingConnections.eraseIdx i } ∧
      Pending msg.id { s with waitingConnections := s.waitingConnections.eraseIdx i } := by
  obtain ⟨hi, hget⟩ := List.getElem?_eq_some_iff.mp hmsg
  have hwaiting : (msg.id :: (s.waitingConnections.eraseIdx i).map (·.id)).Perm (s.waitingConnections.map (·.id)) := by
    rw [← hget]
    exact (List.getElem_cons_eraseIdx_perm hi).map (·.id)
  have hids : (msg.id :: ids { s with waitingConnections := s.waitingConnections.eraseIdx i }).Perm s.ids :=
    List.perm_middle.symm.trans (hwaiting.append_left _)
  have hnodup := List.nodup_cons.mp (hids.nodup_iff.mpr h.nodup)
  have hmem : ∀ other ∈ s.waitingConnections.eraseIdx i, other ∈ s.waitingConnections :=
    fun other hother => List.mem_of_mem_eraseIdx hother
  refine ⟨⟨hnodup.2, ?_, h.distinct, ?_, ?_⟩, ?_, hnodup.1⟩
  · exact fun other hother => h.bound other (hids.subset (List.mem_cons_of_mem _ hother))
  · exact fun other hother => h.named other (hmem other hother)
  · exact fun other hother => h.full other (hmem other hother)
  · exact h.bound _ (hids.subset List.mem_cons_self)

variable {name : Name} {entry : Connection}

/-- Another entry for a name keeps the list sound if no request waits for a free connection of it. -/
theorem Sound.put (h : Sound hole s) (hdistinct : (s.nameTable.put name entry).Distinct)
    (hfree : entry.hasFree = true → some name ≠ hole → ∀ msg ∈ s.waitingConnections, asks msg.body ≠ some name) :
    Sound hole { s with nameTable := s.nameTable.put name entry } := by
  refine ⟨h.nodup, h.bound, hdistinct, h.named, ?_⟩
  intro msg hmsg other found hasks hother hlookup
  by_cases hname : other = name
  · subst hname
    rw [lookup_put] at hlookup
    obtain rfl := Option.some.inj hlookup
    rw [Bool.eq_false_iff]
    exact fun htrue => hfree htrue hother msg hmsg hasks
  · rw [lookup_put_ne hname] at hlookup
    exact h.full msg hmsg other found hasks hother hlookup

theorem Sound.count (h : Sound hole s) (connects drawn : Nat) :
    Sound hole { s with connects := connects, drawn := drawn } :=
  ⟨h.nodup, h.bound, h.distinct, h.named, h.full⟩

def KernelAnswer.connects : KernelAnswer → Bool
  | connectionId _ => true
  | _ => false

def writable (body : Body Unit Memory) : Bool :=
  body.memoryMessageMut.isSome

/-- The name of the request is not cut at 64 bytes. -/
def nameFits (body : Body Unit Memory) : Bool :=
  match nameString body with
  | .ok str => (fromStr str).isSome
  | .error _ => true

theorem nameFits_of_asks {body : Body Unit Memory} (h : (asks body).isSome) : nameFits body := by
  unfold asks at h
  unfold nameFits
  split at h
  · exact h
  · contradiction

theorem unwrapped_bind {τ ρ : Type} {o : Option τ} {a : τ} (h : o = some a) (k : τ → M ρ) : unwrapped o >>= k = k a := by
  rw [h]
  rfl

theorem nameFromMsg_total {body : Body Unit Memory} (hfits : nameFits body = true) :
    Total (nameFromMsg body) (fun name s' => s' = s ∧ asks body = some name)
      (fun _ s' => s' = s ∧ asks body = none) s := by
  unfold nameFits at hfits
  rw [nameFromMsg, total_bind, total_ofExcept]
  constructor
  · intro str hstr
    rw [hstr] at hfits
    obtain ⟨name, hname⟩ := Option.isSome_iff_exists.mp hfits
    rw [hname]
    exact ⟨rfl, by rwa [asks, hstr]⟩
  · intro e he
    exact ⟨rfl, by rw [asks, he]⟩

theorem respond_total (hwritable : writable msg.body = true) (h : Sound hole s) (hid : Pending msg.id s)
    (value : Answer) {n : Nat} (hn : n < 1024) :
    Total (do
        let mem ← unwrapped msg.body.memoryMessageMut
        Prog.assert (n < mem.buf.length / 4)
        drop msg.id msg.body value)
      (fun _ s' => Sound hole s' ∧ s' = { s with answers := s'.answers }) (fun _ _ => False) s := by
  obtain ⟨mem, hmem⟩ := Option.isSome_iff_exists.mp hwritable
  have hpage := mem.page
  rw [unwrapped_bind hmem, total_bind, total_assert]
  exact ⟨decide_eq_true (by omega), drop_total msg.body _ h hid⟩

/-- What an attempt to connect leaves of its entry: one connection more, or as many if the kernel
refused. A count without limit may have wrapped. -/
structure Served (name : Name) (entry : Connection) (connected : Bool) (s s' : State) : Prop where
  table : ∃ conns, s'.nameTable = s.nameTable.put name { entry with currentConns := conns } ∧
    (entry.maxConns ≠ none → conns = if connected then entry.currentConns + 1 else entry.currentConns)
  rest : s' = { s with nameTable := s'.nameTable, connects := s.connects + 1 }

variable {connected : Bool} {s' : State}

theorem Served.sound (hserved : Served name entry connected s s')
    (h : Sound hole s) (hlookup : s.nameTable.map.lookup name = some entry)
    (hfree : entry.hasFree = true) : Sound hole s' := by
  obtain ⟨conns, htable, -⟩ := hserved.table
  have hputs : Sound hole { s with nameTable := s.nameTable.put name { entry with currentConns := conns } } := by
    refine h.put (h.distinct.put_same hlookup rfl) fun _ hhole msg hmsg hasks => ?_
    rw [h.full msg hmsg name entry hasks hhole hlookup] at hfree
    contradiction
  rw [hserved.rest, htable]
  exact hputs.count (s.connects + 1) s.drawn

theorem Served.pending (hserved : Served name entry connected s s') (hid : Pending id s) : Pending id s' := by
  rwa [hserved.rest]

/-- The name cannot be connected to: no server has it, or the server is full. -/
def Full (name : Name) (s : State) : Prop :=
  ∀ entry, s.nameTable.map.lookup name = some entry → entry.hasFree = false

/-- The state after an attempt to connect to the name: its entry was served, or nothing was there to
serve. -/
def Attempted (kernel : Kernel) (name : Name) (s : State) : Except ConnectError ConnectSuccess →
    State → Prop
  | .ok (.connected _ _), s' => ∃ entry, s.nameTable.map.lookup name = some entry ∧
      entry.hasFree = true ∧ (kernel.connectForProcess s.connects).connects = true ∧
      Served name entry true s s'
  | .error _, s' => ∃ entry, s.nameTable.map.lookup name = some entry ∧
      entry.hasFree = true ∧ (kernel.connectForProcess s.connects).connects = false ∧
      Served name entry false s s'
  | .ok .wait, s' => s' = s ∧ Full name s

/-- A connection that the kernel refuses is given back to the entry it was taken from. -/
theorem disconnect_connected (hdistinct : s.nameTable.Distinct)
    (hlookup : s.nameTable.map.lookup name = some entry) (hfree : entry.hasFree = true) :
    ∃ conns, ((s.nameTable.put name { entry with currentConns := entry.currentConns + 1 }).disconnect entry.sid).2 =
      s.nameTable.put name { entry with currentConns := conns } ∧
      (entry.maxConns ≠ none → conns = entry.currentConns) := by
  have hputs : (s.nameTable.put name { entry with currentConns := entry.currentConns + 1 }).Distinct :=
    hdistinct.put_same hlookup rfl
  have hfind := CheckedHashMap.findSid_of_lookup hputs CheckedHashMap.lookup_put
  rw [CheckedHashMap.disconnect, hfind]
  by_cases hpos : 0 < entry.currentConns + 1
  · refine ⟨entry.currentConns, ?_, fun _ => rfl⟩
    simp only [if_pos hpos, CheckedHashMap.put, AList.insert_insert, UInt32.add_sub_cancel]
  · refine ⟨entry.currentConns + 1, ?_, ?_⟩
    · simp only [if_neg hpos]
    · intro hlimit
      obtain ⟨max, hmax⟩ := Option.ne_none_iff_exists'.mp hlimit
      rw [Connection.hasFree, hmax] at hfree
      -- below a limit the count does not wrap
      have hroom : entry.currentConns < max := of_decide_eq_true hfree
      have hmax := max.toNat_lt
      rw [UInt32.lt_iff_toNat_lt] at hroom hpos
      rw [UInt32.toNat_add, show UInt32.toNat 1 = 1 from rfl] at hpos
      norm_num at hpos
      omega

theorem blockingConnect_total (hdistinct : s.nameTable.Distinct) (hfits : nameFits msg.body = true) :
    Total (attempt (blockingConnect kernel msg)) (fun r s' => (∃ e, r = .error e ∧ s' = s ∧ asks msg.body = none) ∨
        ∃ name, asks msg.body = some name ∧ Attempted kernel name s r s') (fun _ _ => False) s := by
  rw [total_attempt, blockingConnect, total_bind]
  apply (nameFromMsg_total hfits).mono
  · rintro name _ ⟨rfl, hname⟩
    rename_i s
    rw [onTable, total_bind, total_bind, total_gets, total_bind, total_modify, total_pure]
    by_cases hfree : ∃ entry, s.nameTable.map.lookup name = some entry ∧ entry.hasFree = true
    · obtain ⟨entry, hlookup, hfree⟩ := hfree
      rw [connect_of_hasFree hlookup hfree]
      simp only [connectForProcess, total_bind, total_gets, total_modify, total_pure]
      cases hanswer : kernel.connectForProcess s.connects with
      | connectionId cid =>
        refine Or.inr ⟨name, hname, entry, hlookup, hfree, by rw [hanswer]; rfl, ⟨_, rfl, ?_⟩, rfl⟩
        exact fun _ => (if_pos rfl).symm
      | other | error =>
        simp only [onTable, total_bind, total_gets, total_modify, total_pure, total_fail]
        obtain ⟨conns, htable, hconns⟩ := disconnect_connected hdistinct hlookup hfree
        refine Or.inr ⟨name, hname, entry, hlookup, hfree, by rw [hanswer]; rfl, ⟨conns, ?_, ?_⟩, rfl⟩
        · exact htable
        · simpa using hconns
    · have hfull : Full name s := by
        intro entry hlookup
        rw [Bool.eq_false_iff]
        exact fun htrue => hfree ⟨entry, hlookup, htrue⟩
      rw [connect_of_full hfull]
      exact Or.inr ⟨name, hname, rfl, hfull⟩
  · rintro e _ ⟨rfl, hname⟩
    exact Or.inl ⟨e, rfl, rfl, hname⟩

/-- A server with this limit and so many connections has one for each of the next `n` requests, of
which the kernel answers some with a connection. -/
def serves (kernel : Kernel) (limit : Option UInt32) (conns : UInt32) (calls : Nat) : Nat → Bool
  | 0 => true
  | n + 1 => hasRoom limit conns &&
      serves kernel limit
        (if (kernel.connectForProcess calls).connects then conns + 1 else conns) (calls + 1) n

theorem serves_none (conns : UInt32) (calls n : Nat) : serves kernel none conns calls n = true := by
  induction n generalizing conns calls with
  | zero => rfl
  | succ n ih =>
    rw [serves, ih]
    rfl

def waiters (name : Name) (msgs : List MessageEnvelope) : Nat :=
  msgs.countP fun msg => asks msg.body = some name

theorem waiters_take_succ {msgs : List MessageEnvelope} (hmsg : msgs[i]? = some msg) :
    waiters name (msgs.take (i + 1)) = waiters name (msgs.take i) + if asks msg.body = some name then 1 else 0 := by
  obtain ⟨hi, hget⟩ := List.getElem?_eq_some_iff.mp hmsg
  rw [List.take_succ_eq_append_getElem hi, hget, waiters, List.countP_append, List.countP_singleton]
  simp only [waiters, decide_eq_true_eq]

/-- The requests for the name up to number `i` are still to be connected, and their server has a free
connection for each. -/
structure Connecting (kernel : Kernel) (name : Name) (i : Nat) (s : State) : Prop where
  sound : Sound (some name) s
  length : i ≤ s.waitingConnections.length
  entry : ∃ entry, s.nameTable.map.lookup name = some entry ∧
    serves kernel entry.maxConns entry.currentConns s.connects
      (waiters name (s.waitingConnections.take i)) = true
  writable : ∀ msg ∈ s.waitingConnections.take i, asks msg.body = some name →
    writable msg.body = true
  done : ∀ msg ∈ s.waitingConnections.drop i, asks msg.body ≠ some name

theorem Connecting.finish (h : Connecting kernel name 0 s) : Sound none s := by
  refine ⟨h.sound.nodup, h.sound.bound, h.sound.distinct, h.sound.named, ?_⟩
  intro msg hmsg other entry hasks _ hlookup
  refine h.sound.full msg hmsg other entry hasks ?_ hlookup
  rintro hother
  exact h.done msg hmsg (hother ▸ hasks)

section

variable (h : Connecting kernel name (i + 1) s) (hmsg : s.waitingConnections[i]? = some msg)

include h hmsg

theorem Connecting.skip (hasks : asks msg.body ≠ some name) : Connecting kernel name i s := by
  obtain ⟨hi, hget⟩ := List.getElem?_eq_some_iff.mp hmsg
  obtain ⟨entry, hlookup, hserves⟩ := h.entry
  rw [waiters_take_succ hmsg, if_neg hasks] at hserves
  refine ⟨h.sound, hi.le, ⟨entry, hlookup, hserves⟩, ?_, ?_⟩
  · intro other hother
    exact h.writable other (List.take_subset_take_left _ i.le_succ hother)
  · intro other hother
    rw [List.drop_eq_getElem_cons hi, hget] at hother
    rcases List.mem_cons.mp hother with rfl | hother
    · exact hasks
    · exact h.done other hother

theorem Connecting.hasFree (hasks : asks msg.body = some name) :
    ∃ entry, s.nameTable.map.lookup name = some entry ∧ entry.hasFree = true := by
  obtain ⟨entry, hlookup, hserves⟩ := h.entry
  rw [waiters_take_succ hmsg, if_pos hasks, serves, Bool.and_eq_true] at hserves
  exact ⟨entry, hlookup, hserves.1⟩

theorem Connecting.serve (hasks : asks msg.body = some name)
    (hlookup : s.nameTable.map.lookup name = some entry) (hfree : entry.hasFree = true)
    (hanswer : (kernel.connectForProcess s.connects).connects = connected)
    (hserved : Served name entry connected { s with waitingConnections := s.waitingConnections.eraseIdx i } s') :
    Connecting kernel name i s' ∧ Pending msg.id s' := by
  obtain ⟨hi, -⟩ := List.getElem?_eq_some_iff.mp hmsg
  have herase : s.waitingConnections.eraseIdx i = s.waitingConnections.take i ++ s.waitingConnections.drop (i + 1) :=
    List.eraseIdx_eq_take_drop_succ _ _
  have hlength : (s.waitingConnections.take i).length = i := List.length_take_of_le hi.le
  obtain ⟨hsound, hpending⟩ := h.sound.take hmsg
  have hsound' := hserved.sound hsound hlookup hfree
  obtain ⟨conns, htable, hconns⟩ := hserved.table
  have hrest := hserved.rest
  rw [htable] at hrest
  obtain ⟨found, hfound, hserves⟩ := h.entry
  rw [hlookup] at hfound
  obtain rfl := Option.some.inj hfound
  rw [hrest] at hsound' ⊢
  refine ⟨⟨hsound', ?_, ?_, ?_, ?_⟩, hpending⟩
  · simp only [herase, List.length_append, hlength]
    omega
  · refine ⟨_, lookup_put, ?_⟩
    simp only [herase]
    rw [List.take_left' hlength]
    rw [waiters_take_succ hmsg, if_pos hasks, serves, hanswer, Bool.and_eq_true] at hserves
    cases hlimit : entry.maxConns with
    | none => exact serves_none _ _ _
    | some max =>
      rw [hconns (by rw [hlimit]; nofun), ← hlimit]
      exact hserves.2
  · intro other hother
    simp only [herase] at hother
    rw [List.take_left' hlength] at hother
    exact h.writable other (List.take_subset_take_left _ i.le_succ hother)
  · intro other hother
    simp only [herase] at hother
    rw [List.drop_left' hlength] at hother
    exact h.done other hother

end

theorem Connecting.answered (h : Connecting kernel name i s)
    (hsound : Sound (some name) s') (hrest : s' = { s with answers := s'.answers }) :
    Connecting kernel name i s' := by
  rw [hrest] at hsound ⊢
  exact ⟨hsound, h.length, h.entry, h.writable, h.done⟩

theorem connectWaiting_total (h : Connecting kernel name i s) :
    Total (connectWaiting kernel name i) (fun _ s' => Sound none s') (fun _ _ => False) s := by
  induction i generalizing s with
  | zero => exact h.finish
  | succ i ih =>
    obtain ⟨msg, hmsg⟩ : ∃ msg, s.waitingConnections[i]? = some msg :=
      ⟨_, List.getElem?_eq_getElem h.length⟩
    have hmem : msg ∈ s.waitingConnections := List.mem_of_getElem? hmsg
    have hfits := nameFits_of_asks (h.sound.named msg hmem)
    rw [connectWaiting, total_bind, total_gets, unwrapped_bind hmsg]
    rw [total_bind, total_attempt]
    apply (nameFromMsg_total hfits).mono
    · rintro asked _ ⟨rfl, hasked⟩
      rename_i s
      rw [total_bind, total_when]
      constructor
      · intro heq
        obtain rfl : asked = name := of_decide_eq_true heq
        rw [total_bind, total_modify, total_bind]
        have htaken := h.sound.take hmsg
        apply (blockingConnect_total htaken.1.distinct hfits).imp
        intro r s' hr
        obtain ⟨e, -, -, hnone⟩ | ⟨name, hname, hattempted⟩ := hr
        · rw [hasked] at hnone
          contradiction
        obtain rfl : asked = name := Option.some.inj (hasked.symm.trans hname)
        have hwritable : writable msg.body = true := by
          apply h.writable msg _ hasked
          exact List.mem_of_getElem? ((List.getElem?_take_of_lt i.lt_succ_self).trans hmsg)
        match r with
        | .ok (.connected _ _) | .error _ =>
          obtain ⟨entry, hlookup, hfree, hanswer, hserved⟩ := hattempted
          obtain ⟨hnext, hpending⟩ := h.serve hmsg hasked hlookup hfree hanswer hserved
          exact (respond_total hwritable hnext.sound hpending _ (by decide)).imp
            fun _ s'' hs'' => ih (hnext.answered hs''.1 hs''.2)
        | .ok .wait =>
          obtain ⟨entry, hlookup, hroom⟩ := h.hasFree hmsg hasked
          rw [hattempted.2 entry hlookup] at hroom
          contradiction
      · intro hne
        apply ih (h.skip hmsg _)
        rw [hasked]
        exact fun heq => of_decide_eq_false hne (Option.some.inj heq)
    · rintro e _ ⟨rfl, hnone⟩
      have := h.sound.named msg hmem
      rw [hnone] at this
      contradiction

def unpacked {τ : Type} (body : Body Unit (Packed τ)) : Option (Packed τ × τ) :=
  body.memoryMessageMut.bind fun buffer => buffer.original.map fun value => (buffer, value)

/-- A request that lends memory names no server by 64 bytes or more, and the memory can be written
unless the request is put to wait. -/
def ConnectFits (tries : Bool) (body : Body Unit Memory) (s : State) : Prop :=
  body.isBlocking = true → body.hasMemory = true → nameFits body = true ∧
    (writable body = true ∨ tries = false ∧ ∃ name, asks body = some name ∧ Full name s)

/-- What a request has to meet in the state it comes in. -/
def Fits (kernel : Kernel) (s : State) : Request → Prop
  | .register body => ∃ buffer registration name, unpacked body = some (buffer, registration) ∧
      fromStr registration.name = some name ∧
      (s.nameTable.map.lookup name = none →
        -- the new server's id is new
        (∀ other entry, s.nameTable.map.lookup other = some entry →
          entry.sid ≠ kernel.createServerId s.drawn) ∧
        -- the requests that wait can all be connected and answered
        serves kernel registration.connLimit 0 s.connects (waiters name s.waitingConnections) = true ∧
        ∀ msg ∈ s.waitingConnections, asks msg.body = some name → writable msg.body = true)
  | .lookup body => ∃ buffer str name, unpacked body = some (buffer, str) ∧
      fromStr str = some name ∧
      (Full name s → kernel.authenticateRequestLen str.length ≤ buffer.len) ∧
      (¬Full name s → kernel.connectForProcess s.connects ≠ .error)
  | .unregister _ => True
  | .disconnect body => ∃ buffer request name, unpacked body = some (buffer, request) ∧
      fromStr request.name = some name ∧
      -- no request waits for the connections that the token frees
      ∀ entry, s.nameTable.map.lookup name = some entry → entry.token = some request.token →
        hasRoom entry.maxConns 0 = true → waiters name s.waitingConnections = 0
  | .blockingConnect body => ConnectFits false body s
  | .tryConnect body => ConnectFits true body s

theorem unpacked_eq_some {τ : Type} {body : Body Unit (Packed τ)} {buffer : Packed τ} {value : τ}
    (h : unpacked body = some (buffer, value)) :
    body.memoryMessageMut = some buffer ∧ buffer.original = some value := by
  obtain ⟨found, hfound, hvalue⟩ := Option.bind_eq_some_iff.mp h
  obtain ⟨original, horiginal, heq⟩ := Option.map_eq_some_iff.mp hvalue
  obtain ⟨rfl, rfl⟩ := Prod.mk.inj heq
  exact ⟨hfound, horiginal⟩

theorem Sound.erase (h : Sound hole s) (name : Name) :
    Sound hole { s with nameTable := { map := s.nameTable.map.erase name } } := by
  have hlookup : ∀ other entry, (s.nameTable.map.erase name).lookup other = some entry →
      s.nameTable.map.lookup other = some entry := by
    intro other entry hother
    by_cases heq : other = name
    · rw [heq, AList.lookup_erase] at hother
      contradiction
    · rwa [AList.lookup_erase_ne heq] at hother
  refine ⟨h.nodup, h.bound, ?_, h.named, ?_⟩
  · exact fun n e n' e' hn hn' => h.distinct n e n' e' (hlookup n e hn) (hlookup n' e' hn')
  · exact fun msg hmsg other entry hasks hhole hother =>
      h.full msg hmsg other entry hasks hhole (hlookup other entry hother)

section

variable (h : Sound none s) (hid : Pending id s)

include h hid

theorem drop_sound {α μ : Type} (body : Body α μ) (value : Answer) :
    Total (drop id body value) (fun _ s' => Sound none s') (fun _ _ => False) s :=
  (drop_total body value h hid).imp fun _ _ hs => hs.1

theorem register_total {body : Body Unit (Packed Registration)} (hfits : Fits kernel s (.register body)) :
    Total (register kernel id body) (fun _ s' => Sound none s') (fun _ _ => False) s := by
  obtain ⟨buffer, registration, name, hunpacked, hname, hnew⟩ := hfits
  obtain ⟨hbuffer, horiginal⟩ := unpacked_eq_some hunpacked
  rw [register, unwrapped_bind hbuffer, unwrapped_bind horiginal, unwrapped_bind hname]
  rw [total_bind, total_gets, total_ite]
  constructor
  · exact fun _ => drop_sound h hid body _
  · intro hcontains
    have hlookup : s.nameTable.map.lookup name = none := by
      rwa [containsKey, Bool.not_eq_true, Option.isSome_eq_false_iff, Option.isNone_iff_eq_none] at hcontains
    obtain ⟨hfresh, hserves, hwritable⟩ := hnew hlookup
    simp only [createServerId, total_bind, total_gets, total_modify, total_pure]
    have hwide : Sound (some name) s :=
      ⟨h.nodup, h.bound, h.distinct, h.named, fun msg hmsg other entry hasks _ =>
        h.full msg hmsg other entry hasks (by simp)⟩
    have hentry : Sound (some name) { s with
        nameTable := s.nameTable.insert name (kernel.createServerId s.drawn) registration.connLimit
          (kernel.createServerId (s.drawn + 1)) } :=
      hwide.put (h.distinct.put fun other entry _ hother => hfresh other entry hother) fun _ hne => absurd rfl hne
    have hinserted := hentry.count s.connects (s.drawn + 1 + 1)
    apply (drop_total body _ hinserted hid).imp
    rintro _ s' ⟨hsound, hrest⟩
    apply connectWaiting_total
    rw [hrest] at hsound ⊢
    refine ⟨hsound, le_rfl, ⟨_, lookup_put, ?_⟩, ?_, ?_⟩
    · simpa using hserves
    · simpa using hwritable
    · simp

theorem unregister_total (body : Body SID Unit) :
    Total (unregister id body) (fun _ s' => Sound none s') (fun _ _ => False) s := by
  cases body with
  | blockingScalar gid =>
    simp only [unregister, onTable, total_bind, total_gets, total_modify, total_pure]
    have htable : Sound none { s with nameTable := (s.nameTable.remove gid).2 } := by
      unfold remove
      split
      · exact h.erase _
      · exact h
    split <;> exact htable.answer hid _
  | _ => exact drop_sound h hid _ _

theorem lookup_total {body : Body Unit (Packed (List UInt8))} (hfits : Fits kernel s (.lookup body)) :
    Total (lookup kernel id body) (fun _ s' => Sound none s') (fun _ _ => False) s := by
  obtain ⟨buffer, str, name, hunpacked, hname, hfull, hfree⟩ := hfits
  obtain ⟨hbuffer, horiginal⟩ := unpacked_eq_some hunpacked
  rw [lookup, unwrapped_bind hbuffer, unwrapped_bind horiginal, unwrapped_bind hname]
  rw [total_bind, onTable, total_bind, total_gets, total_bind, total_modify, total_pure]
  by_cases hconnects : Full name s
  · rw [connect_of_full hconnects]
    simp only [createServerId, total_bind, total_gets, total_modify, total_pure, total_assert]
    exact ⟨decide_eq_true (hfull hconnects), drop_sound (h.count s.connects (s.drawn + 1)) hid body _⟩
  · have hanswer := hfree hconnects
    simp only [Full, not_forall, Bool.not_eq_false] at hconnects
    obtain ⟨entry, hlookup, hentry⟩ := hconnects
    rw [connect_of_hasFree hlookup hentry]
    simp only [connectForProcess, total_bind, total_gets, total_modify, total_pure]
    have hserved : Served name entry true s { s with
        nameTable := s.nameTable.put name { entry with currentConns := entry.currentConns + 1 }
        connects := s.connects + 1 } := ⟨⟨_, rfl, fun _ => rfl⟩, rfl⟩
    have hsound := hserved.sound h hlookup hentry
    -- the connection stays counted whatever the kernel answers
    split
    · contradiction
    · exact drop_sound hsound hid body _
    · exact drop_sound hsound hid body _

theorem disconnect_total {body : Body Unit (Packed Disconnect)} (hfits : Fits kernel s (.disconnect body)) :
    Total (disconnect kernel id body) (fun _ s' => Sound none s') (fun _ _ => False) s := by
  obtain ⟨buffer, request, name, hunpacked, hname, hwaiters⟩ := hfits
  obtain ⟨hbuffer, horiginal⟩ := unpacked_eq_some hunpacked
  rw [disconnect, unwrapped_bind hbuffer, unwrapped_bind horiginal, unwrapped_bind hname]
  simp only [onTable, total_bind, total_gets, total_modify, total_pure, total_when]
  have htable : Sound none { s with nameTable := (s.nameTable.disconnectWithToken name request.token
      (kernel.createServerId s.drawn)).2 } := by
    unfold disconnectWithToken
    split
    · rename_i entry hlookup
      split
      · rename_i htoken
        refine h.put (h.distinct.put_same hlookup ?_) fun hroom _ => ?_
        · rfl
        · simpa [waiters, List.countP_eq_zero] using hwaiters entry hlookup htoken hroom
      · exact h
    · exact h
  constructor
  · exact fun _ => drop_sound (htable.count s.connects (s.drawn + 1)) hid body _
  · exact fun _ => drop_sound htable hid body _

end

theorem Sound.wait (h : Sound none s) (hid : Pending msg.id s)
    (hname : asks msg.body = some name) (hfull : Full name s) :
    Sound none { s with waitingConnections := s.waitingConnections ++ [msg] } := by
  have hids : (ids { s with waitingConnections := s.waitingConnections ++ [msg] }).Perm (msg.id :: s.ids) := by
    simp only [ids, List.map_append, List.map_cons, List.map_nil, ← List.append_assoc]
    exact List.perm_append_singleton _ _
  have hmem : ∀ other ∈ s.waitingConnections ++ [msg], other ∈ s.waitingConnections ∨ other = msg := by
    simp
  refine ⟨hids.nodup_iff.mpr (List.nodup_cons.mpr ⟨hid.2, h.nodup⟩), ?_, h.distinct, ?_, ?_⟩
  · intro other hother
    rcases List.mem_cons.mp (hids.mem_iff.mp hother) with rfl | hother
    · exact hid.1
    · exact h.bound other hother
  · intro other hother
    rcases hmem other hother with hother | rfl
    · exact h.named other hother
    · rw [hname]
      rfl
  · intro other hother asked entry hasks hhole hlookup
    rcases hmem other hother with hother | rfl
    · exact h.full other hother asked entry hasks hhole hlookup
    · obtain rfl : name = asked := Option.some.inj (hname.symm.trans hasks)
      exact hfull entry hlookup

theorem handleConnect_total {tries : Bool} (h : Sound none s) (hid : Pending msg.id s)
    (hfits : ConnectFits tries msg.body s) :
    Total (handleConnect kernel tries msg) (fun _ s' => Sound none s') (fun _ _ => False) s := by
  rw [handleConnect, total_ite]
  refine ⟨fun _ => drop_sound h hid msg.body _, fun hblocking => ?_⟩
  rw [total_ite]
  refine ⟨fun _ => h.answer hid _, fun hmemory => ?_⟩
  rw [not_not] at hblocking hmemory
  obtain ⟨hnamed, hanswerable⟩ := hfits hblocking hmemory
  apply (blockingConnect_total h.distinct hnamed).bind
  intro r s' hr
  obtain ⟨e, rfl, rfl, hnone⟩ | ⟨name, hname, hattempted⟩ := hr
  · obtain hwritable | ⟨-, name, hname, -⟩ := hanswerable
    · exact (respond_total hwritable h hid _ (by decide)).imp fun _ _ hs => hs.1
    · rw [hnone] at hname
      contradiction
  -- a request that is not put to wait has been lent memory that can be written
  have hwritable : ∀ entry, s.nameTable.map.lookup name = some entry → entry.hasFree = true →
      writable msg.body = true := by
    intro entry hlookup hfree
    obtain hwritable | ⟨-, name', hname', hfull⟩ := hanswerable
    · exact hwritable
    · obtain rfl : name' = name := Option.some.inj (hname'.symm.trans hname)
      rw [hfull entry hlookup] at hfree
      contradiction
  match r with
  | .ok (.connected _ _) | .error _ =>
    obtain ⟨entry, hlookup, hfree, -, hserved⟩ := hattempted
    exact (respond_total (hwritable entry hlookup hfree) (hserved.sound h hlookup hfree)
      (hserved.pending hid) _ (by decide)).imp fun _ _ hs => hs.1
  | .ok .wait =>
    obtain ⟨rfl, hfull⟩ := hattempted
    rw [total_ite]
    constructor
    · intro htries
      obtain hwritable | ⟨hblocks, -⟩ := hanswerable
      · exact (respond_total hwritable h hid _ (by decide)).imp fun _ _ hs => hs.1
      · rw [hblocks] at htries
        contradiction
    · intro _
      exact h.wait hid hname hfull

theorem handle_total {request : Request} (h : Sound none s) (hfits : Fits kernel s request) :
    Total (handle kernel request) (fun _ s' => Sound none s') (fun _ _ => False) s := by
  have hnext : Sound none { s with received := s.received + 1 } :=
    ⟨h.nodup, fun id hid => (h.bound id hid).trans s.received.lt_succ_self, h.distinct, h.named, h.full⟩
  have hid : Pending s.received { s with received := s.received + 1 } :=
    ⟨s.received.lt_succ_self, fun hmem => (h.bound _ hmem).false⟩
  rw [handle, total_bind, total_gets, total_bind, total_modify]
  cases request with
  | register body => exact register_total hnext hid hfits
  | lookup body => exact lookup_total hnext hid hfits
  | unregister body => exact unregister_total hnext hid body
  | disconnect body => exact disconnect_total hnext hid hfits
  | blockingConnect body | tryConnect body => exact handleConnect_total hnext hid hfits

def Step (kernel : Kernel) (s : State) (request : Request) (s' : State) : Prop :=
  handle kernel request s = .ok () s'

def FittingStep (kernel : Kernel) (s : State) (request : Request) (s' : State) : Prop :=
  Fits kernel s request ∧ Step kernel s request s'

theorem sound_new : Sound none new := by
  refine ⟨List.nodup_nil, nofun, ?_, nofun, nofun⟩
  intro name entry _ _ hlookup
  rw [show new.nameTable.map = ∅ from rfl, AList.lookup_empty] at hlookup
  contradiction

/-- In a run of fitting requests none is answered twice, none waits whose server has a free
connection, and the next fitting one is handled. -/
theorem no_request_waits_for_a_free_connection {requests : List Request}
    (run : Run (FittingStep kernel) new requests s) :
    (∀ id, s.answers.countP (·.1 = id) ≤ 1) ∧
    (∀ msg ∈ s.waitingConnections, ∃ name, asks msg.body = some name ∧ Full name s) ∧
    ∀ request, Fits kernel s request → ∃ s', handle kernel request s = .ok () s' := by
  have hsound : Sound none s :=
    run.invariant sound_new fun _ _ _ h hstep => (handle_total h hstep.1).post.ok hstep.2
  refine ⟨?_, ?_, ?_⟩
  · intro id
    have hnodup := (List.nodup_append.mp hsound.nodup).1
    have hcount := List.nodup_iff_count_le_one.mp hnodup id
    rw [List.count, List.countP_map] at hcount
    exact (List.countP_mono_left fun entry _ => by simp).trans hcount
  · intro msg hmsg
    obtain ⟨name, hname⟩ := Option.isSome_iff_exists.mp (hsound.named msg hmsg)
    exact ⟨name, hname, fun entry => hsound.full msg hmsg name entry hname nofun⟩
  · intro request hfits
    obtain ⟨_, s', hrun, -⟩ := (handle_total hsound hfits).exists_ok
    exact ⟨s', hrun⟩

def plainKernel : Kernel where
  connectForProcess calls := .connectionId (UInt32.ofNat calls)
  createServerId calls := fun _ => UInt32.ofNat calls
  authenticateRequestLen len := len + 64

def pageOfA : Memory where
  buf := 97 :: List.replicate 4095 0
  valid := some 1
  page := by rw [List.length_cons, List.length_replicate]

def askForA : Request := .blockingConnect (.mutableBorrow pageOfA)

def packed {τ : Type} (value : τ) : Body Unit (Packed τ) :=
  .mutableBorrow { original := some value, len := 4096, page := le_rfl }

def registerA : Request := .register (packed { name := [97], connLimit := some 1 })

/-- Give the connection to `a` back with the token that `plainKernel` drew for it. -/
def disconnectA : Request := .disconnect (packed { name := [97], token := fun _ => 1 })

theorem run_of_forEach {requests : List Request} {start : State}
    (h : forEach requests (handle kernel) start = .ok () s) :
    Run (Step kernel) start requests s := by
  induction requests generalizing start with
  | nil =>
    cases h
    exact .nil
  | cons request rest ih =>
    rw [forEach, bind_apply] at h
    cases hfirst : handle kernel request start with
    | ok _ next =>
      rw [hfirst] at h
      exact (ih h).cons hfirst
    | err e next | panic =>
      rw [hfirst] at h
      contradiction

/-- Two requests that wait for a server with one connection stop the name server when it registers;
a token that frees a connection leaves the request waiting. -/
theorem waiting_requests_meet_a_limit :
    (∃ s, Run (Step plainKernel) new [askForA, askForA] s ∧
      handle plainKernel registerA s = .panic) ∧
    ∃ s, Run (Step plainKernel) new [registerA, askForA, askForA, disconnectA] s ∧
      ∃ msg ∈ s.waitingConnections, asks msg.body = some [97] ∧ ¬Full [97] s := by
  constructor
  · have hrun : (forEach [askForA, askForA] (handle plainKernel) new).returns (fun _ s =>
        !(handle plainKernel registerA s).returns (fun _ _ => true) &&
          !(handle plainKernel registerA s).errs (fun _ _ => true)) = true := by decide +kernel
    obtain ⟨_, s, hs, htest⟩ := Outcome.exists_of_returns hrun
    refine ⟨s, run_of_forEach hs, ?_⟩
    cases hpanic : handle plainKernel registerA s with
    | panic => rfl
    | _ => simp [hpanic, Outcome.returns, Outcome.errs] at htest
  · have hrun : (forEach [registerA, askForA, askForA, disconnectA] (handle plainKernel)
        new).returns (fun _ s => s.waitingConnections.any (fun msg => asks msg.body = some [97]) &&
          (s.nameTable.map.lookup [97]).any (·.hasFree)) = true := by decide +kernel
    obtain ⟨_, s, hs, htest⟩ := Outcome.exists_of_returns hrun
    obtain ⟨hwaits, hfree⟩ := Bool.and_eq_true_iff.mp htest
    obtain ⟨msg, hmsg, hasks⟩ := List.any_eq_true.mp hwaits
    refine ⟨s, run_of_forEach hs, msg, hmsg, of_decide_eq_true hasks, fun hfull => ?_⟩
    obtain ⟨entry, hlookup, hentry⟩ := (Option.any_eq_true _ _).mp hfree
    exact Bool.false_ne_true ((hfull entry hlookup).symm.trans hentry)

/-- One request that waits is connected when its server registers. -/
theorem waiting_request_is_connected :
    ∃ s s', Run (FittingStep plainKernel) new [askForA] s ∧
      s.waitingConnections ≠ [] ∧ handle plainKernel registerA s = .ok () s' := by
  have hask : Fits plainKernel new askForA := fun _ _ =>
    ⟨by decide +kernel, Or.inl (by decide +kernel)⟩
  have hrun : (handle plainKernel askForA new).returns (fun _ s =>
      s.waitingConnections ≠ [] && s.nameTable.map.entries = [] && s.connects = 0 &&
        waiters [97] s.waitingConnections = 1 &&
        s.waitingConnections.all (writable ·.body)) = true := by decide +kernel
  obtain ⟨_, s, hs, htest⟩ := Outcome.exists_of_returns hrun
  simp only [Bool.and_eq_true, decide_eq_true_eq, List.all_eq_true] at htest
  obtain ⟨⟨⟨⟨hwaits, hempty⟩, hconnects⟩, hcount⟩, hwritable⟩ := htest
  have run : Run (FittingStep plainKernel) new [askForA] s := .snoc .nil ⟨hask, hs⟩
  have hfits : Fits plainKernel s registerA := by
    refine ⟨_, _, [97], rfl, rfl, fun _ => ⟨?_, ?_, fun msg hmsg _ => hwritable msg hmsg⟩⟩
    · intro other entry hlookup
      have hmem := AList.mem_lookup_iff.mp hlookup
      rw [hempty] at hmem
      exact absurd hmem List.not_mem_nil
    · rw [hconnects, hcount]
      decide +kernel
  obtain ⟨s', hs'⟩ := (no_request_waits_for_a_free_connection run).2.2 registerA hfits
  exact ⟨s, s', run, hwaits, hs'⟩

end BaochipXous.Names
