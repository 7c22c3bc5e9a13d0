import BaochipXous.LibRely
import BaochipXous.LibUtf8

/-!
Received serial data in the `usb-bao1x` service: the interrupt handler puts each packet into one
buffer and posts its length, and the main loop appends that many bytes to its own. Listeners get the
bytes in order as long as each packet is copied before the next one, with a listener there, and a
flush passes on nothing twice.
-/

namespace BaochipXous.Serial

open Interleaved

def serialMaxPacketSize : Nat := 512

def serialBinaryBuflen : Nat := 3840

/-- What one read of the serial port returns. -/
structure Packet where
  bytes : List UInt8
  pos : bytes ≠ []
  size : bytes.length ≤ serialMaxPacketSize

instance : DecidableEq Packet := fun a b =>
  decidable_of_iff (a.bytes = b.bytes) ⟨fun h => by cases a; cases b; cases h; rfl, congrArg _⟩

/-- A message that waits for data: what it already holds, and how much its buffer takes. -/
structure Listener where
  data : List UInt8
  room : Nat
  fits : data.length ≤ room

instance : DecidableEq Listener := fun a b =>
  decidable_of_iff (a.data = b.data ∧ a.room = b.room)
    ⟨fun h => by cases a; cases b; cases h.1; cases h.2; rfl, fun h => h ▸ ⟨rfl, rfl⟩⟩

inductive SerialListenMode where
  | noListener
  | asciiListener (delimiter : Option Char)
  | binaryListener
  | consoleListener
  deriving DecidableEq

structure SerialState where
  /-- the buffer that the interrupt handler reads into -/
  serialRx : List UInt8 := List.replicate serialMaxPacketSize 0
  /-- the lengths in the `IrqSerialRx` messages that are queued -/
  notices : List Nat := []
  serialListener : Option Listener := none
  serialListenMode : SerialListenMode := .noListener
  serialBuf : List UInt8 := []
  serialRxTrigger : Bool := false
  configured : Bool := false
  /-- the bytes copied so far out of the bytes to copy, while a message is handled -/
  progress : Option (Nat × Nat) := none
  panicked : Bool := false
  /-- auxiliary: all that was received -/
  received : List UInt8 := []
  /-- auxiliary: all that was passed on to listeners -/
  handed : List UInt8 := []

/-- A packet, and whether the main loop's queue has room for its message; or a change of the device's
state. -/
inductive SerialIrq where
  | packet (p : Packet) (sent : Bool)
  | deviceState (configured : Bool)

def serialIrq : SerialIrq → SerialState → SerialState
  | .packet p sent, s =>
    { s with
      serialRx := p.bytes ++ s.serialRx.drop p.bytes.length
      notices := if sent then s.notices ++ [p.bytes.length] else s.notices
      received := s.received ++ p.bytes }
  | .deviceState configured, s => { s with configured }

/-- Reply to the listener with its new contents; the reply has to fit its buffer. -/
def SerialState.reply (s : SerialState) (listener : Listener) (contents bytes : List UInt8) :
    SerialState :=
  if contents.length ≤ listener.room then
    { s with serialListener := none, handed := s.handed ++ bytes }
  else { s with panicked := true }

/-- The delimiter was seen, or none is asked for. Once true, sticks as true. -/
def SerialState.triggered (s : SerialState) : Option Char → Bool
  | some delimiter => s.serialRxTrigger || s.serialBuf.contains (UInt8.ofNat delimiter.toNat)
  | none => true

/-- What happens to the bytes that have come in. `keys`: how many keys the keyboard server takes. -/
def deliver (keys : Nat) (s : SerialState) : SerialState :=
  match s.serialListenMode with
  | .noListener => { s with serialBuf := [] }
  | .consoleListener =>
    let typed := if Utf8.isValid s.serialBuf then (Utf8.pieces s.serialBuf).take keys else []
    { s with serialBuf := [], handed := s.handed ++ typed.flatMap (·.bytes) }
  | .asciiListener maybeDelimiter =>
    let s := { s with serialRxTrigger := s.triggered maybeDelimiter }
    match s.serialRxTrigger, s.serialListener with
    | true, some listener =>
      let text := Utf8.lossy s.serialBuf
      { s.reply listener (listener.data ++ text) text with
        serialRxTrigger := false, serialBuf := [] }
    | _, _ => s
  | .binaryListener =>
    match s.serialListener with
    | some listener =>
      let n := min s.serialBuf.length serialBinaryBuflen
      let page := s.serialBuf.take n
      { s.reply listener (listener.data ++ page) page with serialBuf := s.serialBuf.drop n }
    | none => s

def flush (s : SerialState) : SerialState :=
  if s.configured then
    match s.serialListenMode, s.serialListener with
    | .binaryListener, some listener =>
      let charsAvail := min s.serialBuf.length serialBinaryBuflen
      let page := s.serialBuf.take charsAvail
      -- the lengths have to agree when the page is copied over what the listener sent
      if listener.data.length = charsAvail then
        { s.reply listener page page with serialBuf := s.serialBuf.drop charsAvail }
      else { s with panicked := true }
    | .asciiListener _, some listener =>
      let text := Utf8.lossy s.serialBuf
      { s.reply listener (listener.data ++ text) text with serialRxTrigger := false }
    | _, _ => s
  else s

inductive SerialAction where
  | load
  | takeNotice
  | copyByte (i : Nat)
  | deliver (keys : Nat)
  | hook (mode : SerialListenMode) (listener : Option Listener)
  | flush
  deriving DecidableEq

def perform : SerialAction → SerialState → SerialState
  | .load, s => s
  | .takeNotice, s =>
    match s.notices with
    | [] => s
    | n :: rest => { s with notices := rest, progress := some (0, n) }
  | .copyByte i, s =>
    { s with
      serialBuf := s.serialBuf ++ [s.serialRx.getD i 0]
      progress := s.progress.map fun p => (p.1 + 1, p.2) }
  | .deliver keys, s => { deliver keys s with progress := none }
  | .hook mode listener, s => { s with serialListenMode := mode, serialListener := listener }
  | .flush, s => flush s

abbrev Loop (α : Type) := Thread SerialAction SerialState α

/-- Copy bytes `i`, `i + 1`, … of the interrupt handler's buffer, `n` of them. -/
def copyBytes : Nat → Nat → Loop Unit
  | _, 0 => pure ()
  | i, n + 1 => do
    Thread.take (.copyByte i)
    copyBytes (i + 1) n

/-- The messages of the main loop that touch received data. -/
inductive SerialMsg where
  | irqSerialRx (keys : Nat)
  | hookAscii (delimiter : Option Char) (listener : Listener)
  | hookBinary (listener : Listener)
  | hookConsole (connected : Bool)
  | clearHooks
  | flush
  | other

def irqSerialRx (keys : Nat) : Loop Unit := do
  let notice ← Thread.observe .takeNotice fun s => s.notices.head?
  match notice with
  | none => pure ()
  | some validBytes => do
    copyBytes 0 validBytes
    Thread.take (.deliver keys)

def handle : SerialMsg → Loop Unit
  | .irqSerialRx keys => irqSerialRx keys
  | .hookAscii delimiter listener => Thread.take (.hook (.asciiListener delimiter) (some listener))
  | .hookBinary listener => Thread.take (.hook .binaryListener (some listener))
  | .hookConsole connected =>
    if connected then Thread.take (.hook .consoleListener none) else pure ()
  | .clearHooks => Thread.take (.hook .noListener none)
  | .flush => Thread.take .flush
  | .other => pure ()

/-- One turn of the main loop; a service that has panicked takes no more. -/
def mainLoop (m : SerialMsg) : Loop Unit := do
  let panicked ← Thread.observe .load fun s => s.panicked
  if panicked then pure () else handle m

def serialService : Service SerialAction SerialState SerialIrq SerialMsg where
  perform := perform
  interrupt := serialIrq
  turn := mainLoop

open Service

abbrev SerialLabel := Label SerialAction SerialIrq SerialMsg

/-- What has come in is passed on whole, or kept: there is a listener, text is UTF-8, and the
keyboard server or the listener's buffer has room. -/
def SerialState.delivers (keys : Nat) (s : SerialState) : Bool :=
  match s.serialListenMode with
  | .noListener => s.serialBuf.isEmpty
  | .consoleListener => Utf8.isValid s.serialBuf && (Utf8.pieces s.serialBuf).length ≤ keys
  | .asciiListener maybeDelimiter =>
    match s.serialListener with
    | some listener => !s.triggered maybeDelimiter ||
        (Utf8.isValid s.serialBuf &&
          listener.data.length + s.serialBuf.length ≤ listener.room)
    | none => true
  | .binaryListener =>
    match s.serialListener with
    | some listener =>
      listener.data.length + min s.serialBuf.length serialBinaryBuflen ≤ listener.room
    | none => true

/-- A flush finds a binary listener with as much room as there are bytes for it, and nothing buffered
for a text listener. -/
def SerialState.flushes (s : SerialState) : Bool :=
  !s.configured ||
    match s.serialListenMode, s.serialListener with
    | .binaryListener, some listener =>
      listener.data.length == min s.serialBuf.length serialBinaryBuflen
    | .asciiListener _, some _ => s.serialBuf.isEmpty
    | _, _ => true

/-- Each packet is announced and copied before the next one arrives, and nothing is lost when it is
passed on. -/
def bytesKept (s : SerialState) : SerialLabel → Bool
  | .interrupt (.packet _ sent) => sent && s.notices.isEmpty && s.progress.isNone
  | .act (.deliver keys) => s.delivers keys
  | .act .flush => s.flushes
  | _ => true

/-- Where in a turn an action is taken. -/
def SerialAction.Due : SerialAction → SerialState → Prop
  | .copyByte i, s => ∃ n, s.progress = some (i, n) ∧ i < n
  | .deliver _, s => ∃ n, s.progress = some (n, n)
  | _, s => s.progress = none

section Turn

variable {ok : SerialState → SerialIrq → Prop} {s : SerialState}

@[simp]
theorem serialIrq_progress (e : SerialIrq) (s : SerialState) : (serialIrq e s).progress = s.progress := by
  cases e <;> rfl

theorem progress_stable {p : Option (Nat × Nat)} (s : SerialState) (e : SerialIrq)
    (h : s.progress = p) (_ : ok s e) : (serialService.interrupt e s).progress = p :=
  (serialIrq_progress e s).trans h

theorem flush_progress (s : SerialState) : (flush s).progress = s.progress := by
  have hreply : ∀ l contents bytes, (s.reply l contents bytes).progress = s.progress := by
    intro l contents bytes
    rw [SerialState.reply]
    split <;> rfl
  unfold flush
  split
  · split
    · dsimp only
      split
      · exact hreply _ _ _
      · rfl
    · exact hreply _ _ _
    · rfl
  · rfl

theorem copyBytes_guarantees (i n m : Nat) (hm : i + n = m) (hs : s.progress = some (i, m)) :
    serialService.Guarantees ok SerialAction.Due (copyBytes i n) (fun _ s => s.progress = some (m, m)) s := by
  induction n generalizing i s with
  | zero =>
    rw [Nat.add_zero] at hm
    rw [hm] at hs
    exact .pure hs
  | succ n ih =>
    rw [copyBytes, guarantees_bind]
    refine .take (P := fun s : SerialState => s.progress = some (i, m)) progress_stable hs fun s1 h1 =>
      ⟨⟨m, h1, by omega⟩, ih (i + 1) (by omega) ?_⟩
    change s1.progress.map _ = _
    rw [h1]
    rfl

theorem irqSerialRx_guarantees (keys : Nat) (hs : s.progress = none) :
    serialService.Guarantees ok SerialAction.Due (irqSerialRx keys) (fun _ s => s.progress = none) s := by
  rw [irqSerialRx, guarantees_bind]
  refine .observe (P := fun s : SerialState => s.progress = none) progress_stable hs fun s1 h1 => ⟨h1, ?_⟩
  cases hnotices : s1.notices with
  | nil =>
    refine .pure ?_
    change (perform .takeNotice s1).progress = none
    rwa [perform, hnotices]
  | cons n rest =>
    have hcopy : (perform .takeNotice s1).progress = some (0, n) := by rw [perform, hnotices]
    dsimp only [List.head?_cons]
    refine (copyBytes_guarantees 0 n n (Nat.zero_add n) hcopy).bind fun _ s2 h2 => ?_
    exact .take (P := fun s : SerialState => s.progress = some (n, n)) progress_stable h2 fun s3 h3 =>
      ⟨⟨n, h3⟩, rfl⟩

theorem mainLoop_guarantees (m : SerialMsg) (hs : s.progress = none) :
    serialService.Guarantees ok SerialAction.Due (mainLoop m) (fun _ s => s.progress = none) s := by
  have hook : ∀ mode listener s, s.progress = none →
      serialService.Guarantees ok SerialAction.Due (Thread.take (.hook mode listener))
        (fun _ s => s.progress = none) s := fun mode listener s hs =>
    .take (P := fun s : SerialState => s.progress = none) progress_stable hs fun s1 h1 => ⟨h1, h1⟩
  rw [mainLoop, guarantees_bind]
  refine .observe (P := fun s : SerialState => s.progress = none) progress_stable hs fun s1 h1 => ⟨h1, ?_⟩
  split
  · exact .pure h1
  · cases m with
    | irqSerialRx keys => exact irqSerialRx_guarantees keys h1
    | hookAscii delimiter listener | hookBinary listener => exact hook _ _ s1 h1
    | hookConsole connected =>
      rw [handle]
      split
      · exact hook _ _ s1 h1
      · exact .pure h1
    | clearHooks => exact hook _ _ s1 h1
    | flush =>
      exact .take (P := fun s : SerialState => s.progress = none) progress_stable h1 fun s2 h2 =>
        ⟨h2, (flush_progress s2).trans h2⟩
    | other => exact .pure h1

end Turn

/-- The bytes received are those handed out, those buffered, and those of a packet that is announced
or being copied. -/
inductive Accounted (s : SerialState) : Prop where
  | idle (hprogress : s.progress = none) (hnotices : s.notices = [])
      (hbytes : s.handed ++ s.serialBuf = s.received)
  | announced (n : Nat) (hprogress : s.progress = none) (hnotices : s.notices = [n])
      (hn : n ≤ s.serialRx.length)
      (hbytes : s.handed ++ s.serialBuf ++ s.serialRx.take n = s.received)
  | copying (i n : Nat) (hprogress : s.progress = some (i, n)) (hnotices : s.notices = [])
      (hn : n ≤ s.serialRx.length)
      (hbytes : s.handed ++ s.serialBuf ++ (s.serialRx.take n).drop i = s.received)

/-- What is handed out is taken from the buffer, and nothing else happens. -/
structure PassesOn (s s' : SerialState) : Prop where
  serialRx : s'.serialRx = s.serialRx
  notices : s'.notices = s.notices
  received : s'.received = s.received
  panicked : s'.panicked = s.panicked
  bytes : s'.handed ++ s'.serialBuf = s.handed ++ s.serialBuf

section Steps

variable {s s' : SerialState} {keys : Nat}

theorem reply_of_fits {listener : Listener} {contents bytes : List UInt8} (h : contents.length ≤ listener.room) :
    s.reply listener contents bytes = { s with serialListener := none, handed := s.handed ++ bytes } :=
  if_pos h

theorem take_append_drop_handed (handed buf : List UInt8) (n : Nat) :
    handed ++ buf.take n ++ buf.drop n = handed ++ buf := by
  rw [List.append_assoc, List.take_append_drop]

theorem deliver_passesOn (h : s.delivers keys = true) : PassesOn s (deliver keys s) := by
  unfold SerialState.delivers at h
  unfold deliver
  cases hmode : s.serialListenMode with
  | noListener =>
    simp only [hmode, List.isEmpty_iff] at h
    exact ⟨rfl, rfl, rfl, rfl, by simp [h]⟩
  | consoleListener =>
    simp only [hmode, Bool.and_eq_true, decide_eq_true_eq] at h
    refine ⟨rfl, rfl, rfl, rfl, ?_⟩
    dsimp only
    rw [if_pos h.1, List.take_of_length_le h.2, Utf8.flatMap_pieces, List.append_nil]
  | asciiListener maybeDelimiter =>
    simp only [hmode] at h
    dsimp only
    cases hlistener : s.serialListener with
    | none =>
      split
      · rename_i hsome
        cases hsome
      · exact ⟨rfl, rfl, rfl, rfl, rfl⟩
    | some listener =>
      simp only [hlistener, Bool.or_eq_true, Bool.not_eq_true', Bool.and_eq_true, decide_eq_true_eq] at h
      cases htrigger : s.triggered maybeDelimiter with
      | false => exact ⟨rfl, rfl, rfl, rfl, rfl⟩
      | true =>
        obtain ⟨hvalid, hroom⟩ := h.resolve_left (by simp [htrigger])
        dsimp only
        rw [Utf8.lossy_of_isValid hvalid, reply_of_fits (by rw [List.length_append]; exact hroom)]
        exact ⟨rfl, rfl, rfl, rfl, List.append_nil _⟩
  | binaryListener =>
    simp only [hmode] at h
    dsimp only
    cases hlistener : s.serialListener with
    | none => exact ⟨rfl, rfl, rfl, rfl, rfl⟩
    | some listener =>
      simp only [hlistener, decide_eq_true_eq] at h
      dsimp only
      rw [reply_of_fits (by rw [List.length_append, List.length_take]; omega)]
      exact ⟨rfl, rfl, rfl, rfl, take_append_drop_handed _ _ _⟩

theorem flush_passesOn (h : s.flushes = true) : PassesOn s (flush s) := by
  unfold SerialState.flushes at h
  unfold flush
  split
  · rename_i hconfigured
    simp only [hconfigured, Bool.not_true, Bool.false_or] at h
    split
    · rename_i listener hmode hlistener
      simp only [hmode, hlistener, beq_iff_eq] at h
      dsimp only
      rw [if_pos h, reply_of_fits (by rw [List.length_take]; have := listener.fits; omega)]
      exact ⟨rfl, rfl, rfl, rfl, take_append_drop_handed _ _ _⟩
    · rename_i listener hmode hlistener
      simp only [hmode, hlistener, List.isEmpty_iff] at h
      have hnone : Utf8.lossy s.serialBuf = [] := by
        rw [h]
        rfl
      dsimp only
      rw [hnone, reply_of_fits (by rw [List.append_nil]; exact listener.fits)]
      exact ⟨rfl, rfl, rfl, rfl, by simp⟩
    · exact ⟨rfl, rfl, rfl, rfl, rfl⟩
  · exact ⟨rfl, rfl, rfl, rfl, rfl⟩

theorem PassesOn.accounted (h : PassesOn s s') (hprogress : s'.progress = s.progress)
    (hs : Accounted s) : Accounted s' := by
  cases hs with
  | idle hp hnotices hbytes =>
    exact .idle (hprogress.trans hp) (h.notices.trans hnotices) (h.bytes.trans (hbytes.trans h.received.symm))
  | announced n hp hnotices hn hbytes =>
    refine .announced n (hprogress.trans hp) (h.notices.trans hnotices) (h.serialRx ▸ hn) ?_
    rwa [h.bytes, h.serialRx, h.received]
  | copying i n hp hnotices hn hbytes =>
    refine .copying i n (hprogress.trans hp) (h.notices.trans hnotices) (h.serialRx ▸ hn) ?_
    rwa [h.bytes, h.serialRx, h.received]

theorem Accounted.packet (hs : Accounted s) (hnotices : s.notices = []) (hprogress : s.progress = none)
    (p : Packet) : Accounted (serialIrq (.packet p true) s) := by
  have hbytes : s.handed ++ s.serialBuf = s.received := by
    cases hs with
    | idle _ _ hbytes => exact hbytes
    | announced n _ hn _ _ =>
      rw [hnotices] at hn
      cases hn
    | copying i n hp _ _ _ =>
      rw [hprogress] at hp
      cases hp
  refine .announced p.bytes.length hprogress ?_ ?_ ?_
  · change s.notices ++ [p.bytes.length] = _
    rw [hnotices]
    rfl
  · change p.bytes.length ≤ (p.bytes ++ s.serialRx.drop p.bytes.length).length
    rw [List.length_append]
    exact Nat.le_add_right _ _
  · change s.handed ++ s.serialBuf ++
      (p.bytes ++ s.serialRx.drop p.bytes.length).take p.bytes.length = s.received ++ p.bytes
    rw [List.take_left, hbytes]

theorem Accounted.takeNotice (hs : Accounted s) : Accounted (perform .takeNotice s) := by
  cases hs with
  | idle hprogress hnotices hbytes =>
    rw [perform, hnotices]
    exact .idle hprogress hnotices hbytes
  | announced n hprogress hnotices hn hbytes =>
    rw [perform, hnotices]
    exact .copying 0 n rfl rfl hn hbytes
  | copying i n hprogress hnotices hn hbytes =>
    rw [perform, hnotices]
    exact .copying i n hprogress hnotices hn hbytes

theorem Accounted.copyByte {i n : Nat} (hs : Accounted s) (hp : s.progress = some (i, n))
    (hi : i < n) : Accounted (perform (.copyByte i) s) := by
  cases hs with
  | idle hprogress _ _ | announced _ hprogress _ _ _ =>
    rw [hprogress] at hp
    cases hp
  | copying i' n' hprogress hnotices hn hbytes =>
    rw [hprogress] at hp
    cases hp
    have hlt : i < (s.serialRx.take n).length := by
      rw [List.length_take]
      omega
    have hbyte : s.serialRx.getD i 0 = (s.serialRx.take n)[i] := by
      rw [List.getD_eq_getElem?_getD, List.getElem?_eq_getElem (by omega), List.getElem_take]
      rfl
    refine .copying (i + 1) n (by simp [perform, hprogress]) hnotices hn ?_
    change s.handed ++ (s.serialBuf ++ [s.serialRx.getD i 0]) ++ (s.serialRx.take n).drop (i + 1) = s.received
    rw [hbyte, ← hbytes, List.drop_eq_getElem_cons hlt]
    simp

theorem Accounted.deliver {n : Nat} (hs : Accounted s) (hp : s.progress = some (n, n))
    (hdelivers : s.delivers keys = true) : Accounted (perform (.deliver keys) s) := by
  have hpass := deliver_passesOn hdelivers
  cases hs with
  | idle hprogress _ _ | announced _ hprogress _ _ _ =>
    rw [hprogress] at hp
    cases hp
  | copying i' n' hprogress hnotices hn hbytes =>
    rw [hprogress] at hp
    cases hp
    rw [List.drop_of_length_le (by rw [List.length_take]; omega), List.append_nil] at hbytes
    exact .idle rfl (hpass.notices.trans hnotices) (hpass.bytes.trans (hbytes.trans hpass.received.symm))

end Steps

section Runs

variable {labels : List SerialLabel} {s : SerialState} {c : Config SerialAction SerialState}

theorem accounted_of_run
    (run : Labelled.Run (serialService.Effect (fun s l => bytesKept s l) SerialAction.Due) {} labels
      s) : s.panicked = false ∧ Accounted s := by
  refine run.invariant (I := fun s => s.panicked = false ∧ Accounted s) ⟨rfl, .idle rfl rfl rfl⟩
    fun s l s' hs hstep => ?_
  obtain ⟨hkept, heffect⟩ := hstep
  obtain ⟨hrunning, haccounted⟩ := hs
  cases l with
  | receive m =>
    rw [heffect]
    exact ⟨hrunning, haccounted⟩
  | interrupt e =>
    rw [heffect]
    cases e with
    | deviceState configured =>
      refine ⟨hrunning, ?_⟩
      cases haccounted with
      | idle hp hn hb => exact .idle hp hn hb
      | announced n hp hn hle hb => exact .announced n hp hn hle hb
      | copying i n hp hn hle hb => exact .copying i n hp hn hle hb
    | packet p sent =>
      simp only [bytesKept, Bool.and_eq_true, List.isEmpty_iff, Option.isNone_iff_eq_none] at hkept
      obtain ⟨⟨rfl, hnotices⟩, hprogress⟩ := hkept
      exact ⟨hrunning, haccounted.packet hnotices hprogress p⟩
  | act a =>
    obtain ⟨hdue, rfl⟩ := heffect
    cases a with
    | load => exact ⟨hrunning, haccounted⟩
    | takeNotice =>
      refine ⟨?_, haccounted.takeNotice⟩
      change (perform .takeNotice s).panicked = false
      rw [perform]
      split <;> exact hrunning
    | copyByte i =>
      obtain ⟨n, hp, hi⟩ := hdue
      exact ⟨hrunning, haccounted.copyByte hp hi⟩
    | deliver keys =>
      obtain ⟨n, hp⟩ := hdue
      exact ⟨(deliver_passesOn hkept).panicked.trans hrunning, haccounted.deliver hp hkept⟩
    | hook mode listener =>
      have hpass : PassesOn s (perform (.hook mode listener) s) := ⟨rfl, rfl, rfl, rfl, rfl⟩
      exact ⟨hrunning, hpass.accounted rfl haccounted⟩
    | flush =>
      have hpass := flush_passesOn hkept
      exact ⟨hpass.panicked.trans hrunning, hpass.accounted (flush_progress s) haccounted⟩

theorem Accounted.handed_prefix (h : Accounted s) : s.handed <+: s.received := by
  cases h with
  | idle _ _ hbytes => exact hbytes ▸ List.prefix_append _ _
  | announced n _ _ _ hbytes | copying i n _ _ _ hbytes =>
    rw [List.append_assoc] at hbytes
    exact hbytes ▸ List.prefix_append _ _

/-- In every run in which each packet is copied before the next arrives and none is lost on the way:
nothing panics, what listeners got is the start of what was received, and once the packets are
handled the rest is still buffered. -/
theorem received_bytes_are_handed_once
    (walk : serialService.Walk (fun s l => bytesKept s l) {} labels c) :
    c.state.panicked = false ∧ c.state.handed <+: c.state.received ∧
      (c.next = none → c.state.notices = [] →
        c.state.handed ++ c.state.serialBuf = c.state.received) := by
  obtain ⟨run, hrest⟩ := walk.effects (fun s e hs _ => (serialIrq_progress e s).trans hs)
    (fun m _ hs _ => mainLoop_guarantees m hs) rfl
  obtain ⟨hrunning, haccounted⟩ := accounted_of_run run
  refine ⟨hrunning, haccounted.handed_prefix, fun hnext hnotices => ?_⟩
  rw [Service.rest_of_next_none hnext] at hrest
  cases haccounted with
  | idle _ _ hbytes => exact hbytes
  | announced n _ hn _ _ =>
    rw [hnotices] at hn
    cases hn
  | copying i n hprogress _ _ _ =>
    have hresting : c.state.progress = none := hrest
    rw [hprogress] at hresting
    cases hresting

end Runs

def onePacket (b : UInt8) : Packet where
  bytes := [b]
  pos := List.cons_ne_nil b []
  size := (by decide : 1 ≤ serialMaxPacketSize)

def emptyListener : Listener where
  data := []
  room := serialBinaryBuflen
  fits := Nat.zero_le _

def hookSteps : List SerialLabel :=
  [.receive (.hookBinary emptyListener), .act .load, .act (.hook .binaryListener (some emptyListener))]

def irqSteps : List SerialLabel :=
  [.receive (.irqSerialRx 0), .act .load, .act .takeNotice, .act (.copyByte 0), .act (.deliver 0)]

def packetStep (b : UInt8) : SerialLabel :=
  .interrupt (.packet (onePacket b) true)

def heardByte : List SerialLabel :=
  hookSteps ++ packetStep 65 :: irqSteps

theorem heard_byte_is_handed_once :
    ∃ c, serialService.Walk (fun s l => bytesKept s l) {} heardByte c ∧ c.state.handed = [65] ∧
      c.state.panicked = false ∧ c.state.handed <+: c.state.received ∧
      c.state.handed ++ c.state.serialBuf = c.state.received := by
  have hrun : (serialService.walk (fun s l => bytesKept s l) ⟨{}, .ret ()⟩ heardByte).map
      (fun c => (c.next, c.state.notices, c.state.handed)) = some (none, [], [65]) := by
    decide +kernel
  obtain ⟨c, hwalk, hseen⟩ := Option.map_eq_some_iff.mp hrun
  simp only [Prod.mk.injEq] at hseen
  obtain ⟨hnext, hnotices, hhanded⟩ := hseen
  obtain ⟨hrunning, hstart, hall⟩ := received_bytes_are_handed_once (.of_walk hwalk)
  exact ⟨c, .of_walk hwalk, hhanded, hrunning, hstart, hall hnext hnotices⟩

/-- A second packet arrives before the first one is copied. -/
def overwrittenPacket : List SerialLabel :=
  hookSteps ++ packetStep 65 :: packetStep 66 :: irqSteps

/-- The device is configured, a byte is buffered while no listener is hooked, and a flush comes after
the next hook. -/
def flushedByte : List SerialLabel :=
  .interrupt (.deviceState true) :: hookSteps ++ packetStep 65 :: irqSteps ++
    packetStep 66 :: irqSteps ++ hookSteps ++ [.receive .flush, .act .load, .act .flush]

theorem overwritten_packet_is_lost :
    (∃ c, serialService.Walk (fun _ _ => True) {} overwrittenPacket c ∧
        ¬c.state.handed <+: c.state.received) ∧
      ∃ c, serialService.Walk (fun _ _ => True) {} flushedByte c ∧ c.state.panicked = true := by
  have hlost : (serialService.walk (fun _ _ => True) ⟨{}, .ret ()⟩ overwrittenPacket).map
      (fun c => (c.state.handed, c.state.received)) = some ([66], [65, 66]) := rfl
  have hflush : (serialService.walk (fun _ _ => True) ⟨{}, .ret ()⟩ flushedByte).map
      (fun c => c.state.panicked) = some true := rfl
  obtain ⟨c, hwalk, hseen⟩ := Option.map_eq_some_iff.mp hlost
  obtain ⟨hhanded, hreceived⟩ := Prod.mk.inj hseen
  obtain ⟨c', hwalk', hpanicked⟩ := Option.map_eq_some_iff.mp hflush
  refine ⟨⟨c, .of_walk hwalk, ?_⟩, c', .of_walk hwalk', hpanicked⟩
  rw [hhanded, hreceived]
  decide

end BaochipXous.Serial
