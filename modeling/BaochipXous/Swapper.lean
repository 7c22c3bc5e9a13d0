import BaochipXous.KernelMemory
import BaochipXous.LibRely
import BaochipXous.LibCyclic

/-!
The swapper: pages taken from a process are encrypted to a slot of the swap memory, and read back
when the process touches them, unless they are read from flash. A count for each slot says whether
it is in use and how often it has been written, and keeps the nonces apart. Slots in use are never
written, so the swapper refines a store with one place for each page.
-/

namespace BaochipXous.Swapper

open Prog Function
open Kernel (Error pageSize)

section

/-- The flag of a page table entry, `loader::FLG_VALID`. -/
def flgValid : Nat := 1

/-- The topmost bit of a count, `loader::FLG_SWAP_USED`. -/
def flgSwapUsed : Nat := 2 ^ 31

/-- The base of the addresses that are mapped to flash, `xous::arch::MMAP_VIRT_BASE`. -/
def mmapVirtBase : Nat := 0xb0000000

def toBeBytes (word : Nat) : List Nat :=
  [word / 2 ^ 24 % 256, word / 2 ^ 16 % 256, word / 2 ^ 8 % 256, word % 256]

/-- What the cipher is called with: the count and the offset of the slot, the virtual address of the
page and its process. -/
structure CipherCall where
  swapCount : Nat
  offset : Nat
  vaddr : Nat
  pid : Nat

def CipherCall.nonce (call : CipherCall) : List Nat :=
  let ppageMasked := call.offset / pageSize * pageSize
  let vpageMasked := call.vaddr / pageSize * pageSize
  toBeBytes call.swapCount ++ [0, call.pid] ++ (toBeBytes ppageMasked).take 3 ++
    (toBeBytes vpageMasked).take 3

/-- An authenticated cipher under a fixed key that decrypts what it has encrypted. -/
structure Aead (Page Tag : Type) where
  encrypt : List Nat → Page → Page × Tag
  decrypt : List Nat → Page → Tag → Option Page
  correct : ∀ nonce page,
    decrypt nonce (encrypt nonce page).1 (encrypt nonce page).2 = some page

/-- A page of the tracker that the swapper may evict: the process and the page number. -/
structure SwapAlloc where
  rawPid : Fin 256
  vpn : Fin (2 ^ 20)

def SwapAlloc.vaddr (candidate : SwapAlloc) : Nat := candidate.vpn * pageSize

/-- What the handler of the swapper works on, with the memories behind it. -/
structure SharedState (Page Tag : Type) where
  /-- The leaf tables of each process, by the number of the process less one. -/
  roots : Nat → Nat → Option (Nat → Nat)
  pidCount : Nat
  /-- The count of each slot, with the flag of its use. -/
  counts : Nat → Nat
  /-- The number of slots. -/
  slots : Nat
  freeSwapSearchOrigin : Nat
  /-- The swap memory: what is stored in each slot, and the code of each slot. -/
  data : Nat → Page
  macs : Nat → Tag
  /-- The page of flash from an offset on. -/
  flash : Nat → Page
  /-- History, read by no function: the calls of `encrypt_swap_to`, the last one first. -/
  encryptions : List CipherCall
  /-- History, read by no function: the calls of `decrypt_swap_from`, the last one first. -/
  decryptions : List CipherCall

variable {Page Tag : Type}

abbrev SP (Page Tag α : Type) := Prog Error (SharedState Page Tag) α

namespace SharedState

def setLeaf (ss : SharedState Page Tag) (root vpn1 vpn0 entry : Nat) : SharedState Page Tag :=
  { ss with
    roots := update ss.roots root (update (ss.roots root) vpn1
      ((ss.roots root vpn1).map fun l0Pt => update l0Pt vpn0 entry)) }

def addLeaf (ss : SharedState Page Tag) (root vpn1 : Nat) : SharedState Page Tag :=
  { ss with
    roots := update ss.roots root
      (update (ss.roots root) vpn1 (some fun _ => 0)) }

end SharedState

def ptWalk (pid va : Nat) (markFree : Bool) : SP Page Tag (Option Nat) := do
  let ss ← get
  assert (0 < pid ∧ pid ≤ ss.pidCount)
  match ss.roots (pid - 1) (va / 2 ^ 22) with
  | none => pure none
  | some l0Pt => do
    let l0Entry := l0Pt (va / 2 ^ 12 % 2 ^ 10)
    if l0Entry % 2 = flgValid then
      when markFree do
        modify (SharedState.setLeaf · (pid - 1) (va / 2 ^ 22) (va / 2 ^ 12 % 2 ^ 10) 0)
      pure (some (l0Entry / 2 ^ 10 * 2 ^ 12 % 2 ^ 32 + va % 2 ^ 12))
    else pure none

/-- An entry that is there is replaced. A new leaf table comes empty from the kernel. -/
def mapSwap (swapPhys virt owner : Nat) : SP Page Tag Unit := do
  assert (swapPhys % pageSize = 0)
  assert (virt % pageSize = 0)
  let ppn := swapPhys / pageSize * 2 ^ 10
  let vpn1 := virt / 2 ^ 22 % 2 ^ 10
  let vpn0 := virt / 2 ^ 12 % 2 ^ 10
  let ss ← get
  assert (0 < owner ∧ owner ≤ ss.pidCount)
  when (ss.roots (owner - 1) vpn1).isNone do
    modify (SharedState.addLeaf · (owner - 1) vpn1)
  modify (SharedState.setLeaf · (owner - 1) vpn1 vpn0 (ppn + flgValid))

def encryptSwapTo (aead : Aead Page Tag) (buf : Page) (call : CipherCall) : SP Page Tag Unit := do
  assert (call.offset % pageSize = 0)
  let (encrypted, tag) := aead.encrypt call.nonce buf
  modify fun ss => { ss with
    data := update ss.data (call.offset / pageSize) encrypted
    macs := update ss.macs (call.offset / pageSize) tag
    encryptions := call :: ss.encryptions }

def SharedState.free (ss : SharedState Page Tag) (slot : Nat) : Bool :=
  decide (ss.counts slot / flgSwapUsed % 2 = 0)

/-- The next slot that is not in use, from the origin of the search on and around. -/
def SharedState.nextFreePage (ss : SharedState Page Tag) : Option Nat :=
  ((List.range ss.slots).map fun slot => (ss.freeSwapSearchOrigin + slot) % ss.slots).find? ss.free

/-- `write_to_swap_inner`, with what the kernel gives for the page: its contents, or nothing if the
page cannot be stolen. -/
def writeToSwapInner (aead : Aead Page Tag) (candidate : SwapAlloc) (stolen : Option Page) :
    SP Page Tag Unit := do
  match stolen with
  | none => fail .shareViolation
  | some buf => do
    let ss ← get
    match ss.nextFreePage with
    | none => halt
    | some freePageNumber => do
      let count := (ss.counts freePageNumber % flgSwapUsed + 1) % flgSwapUsed
      modify fun ss => { ss with
        freeSwapSearchOrigin := freePageNumber + 1
        counts := update ss.counts freePageNumber (count + flgSwapUsed) }
      mapSwap (freePageNumber * pageSize) candidate.vaddr candidate.rawPid
      encryptSwapTo aead buf
        ⟨count, freePageNumber * pageSize, candidate.vaddr, candidate.rawPid⟩

/-- The address is one of those that the swapper reads from flash. -/
def isMappedFlash (vaddr : Nat) : Bool := decide (vaddr &&& mmapVirtBase = mmapVirtBase)

/-- Decrypt the slot at an offset; nothing is returned if the code does not fit. -/
def decryptSwapFrom (aead : Aead Page Tag) (call : CipherCall) : SP Page Tag (Option Page) := do
  assert (call.offset % pageSize = 0)
  modify fun ss => { ss with decryptions := call :: ss.decryptions }
  let ss ← get
  pure (aead.decrypt call.nonce (ss.data (call.offset / pageSize)) (ss.macs (call.offset / pageSize)))

def timeoutRetries : Nat := 3

/-- Decrypt until it succeeds or the retries are used up. -/
def decryptRetrying (aead : Aead Page Tag) (call : CipherCall) : Nat → SP Page Tag Page
  | 0 => halt
  | retries + 1 => do
    match ← decryptSwapFrom aead call with
    | some page => pure page
    | none => decryptRetrying aead call retries

/-- `ReadFromSwap`: the contents that the page of a process gets. -/
def readFromSwap (aead : Aead Page Tag) (pid : Fin 256) (vaddrInPid : Nat) : SP Page Tag Page := do
  if isMappedFlash vaddrInPid then gets fun ss => ss.flash (vaddrInPid % 2 ^ 28)
  else
    match ← ptWalk pid vaddrInPid true with
    | none => halt
    | some paddrInSwap => do
      let slot := paddrInSwap / pageSize
      let ss ← get
      assert (slot < ss.slots)
      modify fun ss => { ss with
        counts := update ss.counts slot (ss.counts slot % flgSwapUsed) }
      let ss ← get
      decryptRetrying aead ⟨ss.counts slot, paddrInSwap, vaddrInPid, pid⟩ timeoutRetries

end

open SharedState Labelled

section

variable {Page Tag : Type} {ss ss' : SharedState Page Tag}

theorem mul_pageSize_div (n : Nat) : n * pageSize / pageSize = n := Nat.mul_div_cancel _ (by decide)

namespace SharedState

def slotOf (ss : SharedState Page Tag) (pid vpn : Nat) : Option Nat :=
  match ss.roots (pid - 1) (vpn / 1024) with
  | none => none
  | some l0Pt =>
    if l0Pt (vpn % 1024) % 2 = flgValid then some (l0Pt (vpn % 1024) / 1024) else none

theorem slotOf_addLeaf {root vpn1 : Nat} (h : ss.roots root vpn1 = none) :
    (ss.addLeaf root vpn1).slotOf = ss.slotOf := by
  funext q w
  unfold slotOf addLeaf
  by_cases hq : q - 1 = root
  · subst hq
    by_cases hw : w / 1024 = vpn1
    · subst hw
      simp [h, flgValid]
    · simp [hw]
  · simp [hq]

theorem slotOf_setLeaf {pid vpn entry q : Nat} (w : Nat) (hpid : 0 < pid) (hq : 0 < q)
    (h : (ss.roots (pid - 1) (vpn / 1024)).isSome) :
    (ss.setLeaf (pid - 1) (vpn / 1024) (vpn % 1024) entry).slotOf q w =
      if q = pid ∧ w = vpn then (if entry % 2 = flgValid then some (entry / 1024) else none)
      else ss.slotOf q w := by
  obtain ⟨l0Pt, hl0Pt⟩ := Option.isSome_iff_exists.mp h
  unfold slotOf setLeaf
  by_cases hroot : q = pid
  · subst hroot
    by_cases hw : w / 1024 = vpn / 1024
    · by_cases hindex : w % 1024 = vpn % 1024
      · have hsame : w = vpn := by omega
        subst hsame
        simp [hl0Pt]
      · have hne : w ≠ vpn := fun heq => hindex (heq ▸ rfl)
        simp [hw, hl0Pt, hindex, hne]
    · have hne : w ≠ vpn := fun heq => hw (heq ▸ rfl)
      simp [hw, hne]
  · have hne : q - 1 ≠ pid - 1 := by omega
    simp [hne, hroot]

end SharedState

/-- The tables send a page to a slot, and all other pages where they were. -/
def Placed (ss : SharedState Page Tag) (pid vpn : Nat) (slot : Option Nat)
    (ss' : SharedState Page Tag) : Prop :=
  ∀ q w, 0 < q → ss'.slotOf q w = if q = pid ∧ w = vpn then slot else ss.slotOf q w

theorem mapSwap_post (slot vpn pid : Nat) (hvpn : vpn < 2 ^ 20) :
    Post (mapSwap (slot * pageSize) (vpn * pageSize) pid) (fun _ ss' => (0 < pid ∧ pid ≤ ss.pidCount) ∧
        ∃ roots, ss' = { ss with roots := roots } ∧ Placed ss pid vpn (some slot) ss')
      (fun _ _ => False) ss := by
  have hvpn1 : vpn * pageSize / 2 ^ 22 % 2 ^ 10 = vpn / 1024 := by
    simp only [pageSize]
    omega
  have hvpn0 : vpn * pageSize / 2 ^ 12 % 2 ^ 10 = vpn % 1024 := by
    simp only [pageSize]
    omega
  -- once the leaf table is there, the entry is written
  have hwrite : ∀ ss1 : SharedState Page Tag, 0 < pid ∧ pid ≤ ss.pidCount →
      (∃ roots, ss1 = { ss with roots := roots }) → ss1.slotOf = ss.slotOf →
      (ss1.roots (pid - 1) (vpn / 1024)).isSome →
      Post (modify (setLeaf · (pid - 1) (vpn / 1024) (vpn % 1024) (slot * 1024 + flgValid)) : SP Page Tag Unit)
        (fun _ ss' => (0 < pid ∧ pid ≤ ss.pidCount) ∧
          ∃ roots, ss' = { ss with roots := roots } ∧ Placed ss pid vpn (some slot) ss')
        (fun _ _ => False) ss1 := by
    rintro _ hpid ⟨roots, rfl⟩ hslotOf hsome
    rw [post_modify]
    refine ⟨hpid, _, rfl, ?_⟩
    intro q w hq
    have hentry : (slot * 1024 + flgValid) % 2 = flgValid ∧ (slot * 1024 + flgValid) / 1024 = slot := by
      simp only [flgValid]
      omega
    rw [slotOf_setLeaf w hpid.1 hq hsome, hslotOf, if_pos hentry.1, hentry.2]
  unfold mapSwap
  rw [post_bind, post_assert]
  intro _
  rw [post_bind, post_assert]
  intro _
  dsimp only
  rw [hvpn1, hvpn0, mul_pageSize_div, post_bind, post_get, post_bind, post_assert, decide_eq_true_eq]
  intro hpid
  rw [post_bind, post_when]
  refine ⟨fun hnone => ?_, fun hsome => ?_⟩
  · rw [post_modify]
    apply hwrite _ hpid ⟨_, rfl⟩ (slotOf_addLeaf (Option.isNone_iff_eq_none.mp hnone))
    simp
  · apply hwrite ss hpid ⟨_, rfl⟩ rfl
    rwa [Option.isNone_eq_false_iff] at hsome

theorem ptWalk_total {pid : Nat} (hpid : 0 < pid ∧ pid ≤ ss.pidCount) (va : Nat) :
    Total (ptWalk pid va true) (fun place ss' => match ss.slotOf pid (va / pageSize) with
        | none => place = none
        | some slot => place = some (slot * pageSize % 2 ^ 32 + va % pageSize) ∧
          ∃ roots, ss' = { ss with roots := roots } ∧ Placed ss pid (va / pageSize) none ss')
      (fun _ _ => False) ss := by
  have hvpn1 : va / 2 ^ 22 = va / pageSize / 1024 := by
    simp only [pageSize]
    omega
  have hvpn0 : va / 2 ^ 12 % 2 ^ 10 = va / pageSize % 1024 := rfl
  rw [ptWalk, total_bind, total_get, total_bind, total_assert, hvpn1, slotOf]
  refine ⟨decide_eq_true hpid, ?_⟩
  cases hroot : ss.roots (pid - 1) (va / pageSize / 1024) with
  | none => rfl
  | some l0Pt =>
    dsimp only
    rw [hvpn0]
    by_cases hvalid : l0Pt (va / pageSize % 1024) % 2 = flgValid
    · simp only [if_pos hvalid]
      rw [total_bind, total_when]
      refine ⟨fun _ => ⟨rfl, _, rfl, ?_⟩, nofun⟩
      intro q w hq
      exact slotOf_setLeaf w hpid.1 hq (by rw [hroot]; rfl)
    · simp only [if_neg hvalid]
      rfl

section Effects

variable {aead : Aead Page Tag}

def SharedState.nextCall (ss : SharedState Page Tag) (slot : Nat) (candidate : SwapAlloc) :
    CipherCall :=
  ⟨(ss.counts slot % flgSwapUsed + 1) % flgSwapUsed, slot * pageSize, candidate.vaddr,
    candidate.rawPid⟩

def SharedState.readCall (ss : SharedState Page Tag) (slot pid vpn : Nat) : CipherCall :=
  ⟨ss.counts slot % flgSwapUsed, slot * pageSize, vpn * pageSize, pid⟩

/-- What an eviction does: a free slot gets the page, and the tables send the page there. -/
structure Evicted (aead : Aead Page Tag) (ss : SharedState Page Tag) (candidate : SwapAlloc)
    (page : Page) (slot : Nat) (ss' : SharedState Page Tag) : Prop where
  range : slot < ss.slots
  free : ss.free slot = true
  owner : 0 < candidate.rawPid.val ∧ candidate.rawPid.val ≤ ss.pidCount
  slots : ss'.slots = ss.slots
  pidCount : ss'.pidCount = ss.pidCount
  counts : ss'.counts = update ss.counts slot
    ((ss.nextCall slot candidate).swapCount + flgSwapUsed)
  data : ss'.data = update ss.data slot
    (aead.encrypt (ss.nextCall slot candidate).nonce page).1
  macs : ss'.macs = update ss.macs slot
    (aead.encrypt (ss.nextCall slot candidate).nonce page).2
  encryptions : ss'.encryptions = ss.nextCall slot candidate :: ss.encryptions
  placed : Placed ss candidate.rawPid candidate.vpn (some slot) ss'

theorem SharedState.nextFreePage_spec {slot : Nat} (h : ss.nextFreePage = some slot) :
    slot < ss.slots ∧ ss.free slot = true := by
  obtain ⟨i, hi, rfl⟩ := List.mem_map.mp (List.mem_of_find?_eq_some h)
  have hpos : 0 < ss.slots := Nat.zero_lt_of_lt (List.mem_range.mp hi)
  exact ⟨Nat.mod_lt _ hpos, List.find?_some h⟩

variable (aead ss) in
theorem writeToSwapInner_post (candidate : SwapAlloc) (stolen : Option Page) :
    Post (writeToSwapInner aead candidate stolen)
      (fun _ ss' => ∃ page slot, stolen = some page ∧ Evicted aead ss candidate page slot ss')
      (fun _ ss' => stolen = none ∧ ss' = ss) ss := by
  cases stolen with
  | none => exact ⟨rfl, rfl⟩
  | some page =>
    unfold writeToSwapInner
    rw [post_bind, post_get]
    cases hfree : ss.nextFreePage with
    | none => trivial
    | some slot =>
      obtain ⟨hrange, hfree⟩ := nextFreePage_spec hfree
      dsimp only
      rw [post_bind, post_modify]
      apply (mapSwap_post slot candidate.vpn candidate.rawPid candidate.vpn.isLt).never.bind
      rintro _ _ ⟨hpid, roots, rfl, hplaced⟩
      unfold encryptSwapTo
      rw [post_bind, post_assert]
      intro _
      rw [post_modify]
      refine ⟨page, slot, rfl, hrange, hfree, hpid, rfl, rfl, rfl, ?_, ?_, rfl, hplaced⟩
      · exact congrArg (update ss.data · _) (mul_pageSize_div slot)
      · exact congrArg (update ss.macs · _) (mul_pageSize_div slot)

theorem decryptRetrying_post (call : CipherCall) (retries : Nat) :
    Post (decryptRetrying aead call retries) (fun page ss' => call.offset % pageSize = 0 ∧
        aead.decrypt call.nonce (ss.data (call.offset / pageSize)) (ss.macs (call.offset / pageSize)) = some page ∧
        ss' = { ss with decryptions := call :: ss.decryptions })
      (fun _ _ => False) ss := by
  induction retries generalizing ss with
  | zero => trivial
  | succ retries ih =>
    rw [decryptRetrying, decryptSwapFrom, post_bind, post_bind, post_assert, decide_eq_true_eq]
    intro haligned
    rw [post_bind, post_modify, post_bind, post_get, post_pure]
    dsimp only
    split
    next page hpage => exact ⟨haligned, hpage, rfl⟩
    next hfails =>
      -- the memories do not change, so that decryption fails again
      apply ih.imp
      rintro page ss' ⟨-, hpage, -⟩
      rw [hfails] at hpage
      nomatch hpage

/-- What a retrieval from swap does: the slot of the page is read and becomes free. -/
structure Retrieved (aead : Aead Page Tag) (ss : SharedState Page Tag) (pid vaddr : Nat)
    (page : Page) (slot : Nat) (ss' : SharedState Page Tag) : Prop where
  owner : 0 < pid
  aligned : vaddr % pageSize = 0
  place : ss.slotOf pid (vaddr / pageSize) = some slot
  slots : ss'.slots = ss.slots
  pidCount : ss'.pidCount = ss.pidCount
  counts : ss'.counts = update ss.counts slot (ss.counts slot % flgSwapUsed)
  data : ss'.data = ss.data
  macs : ss'.macs = ss.macs
  encryptions : ss'.encryptions = ss.encryptions
  decryptions : ss'.decryptions = ss.readCall slot pid (vaddr / pageSize) :: ss.decryptions
  decrypted : aead.decrypt (ss.readCall slot pid (vaddr / pageSize)).nonce (ss.data slot)
    (ss.macs slot) = some page
  placed : Placed ss pid (vaddr / pageSize) none ss'

/-- The slots of all pages have offsets that are words. -/
def SharedState.Addressed (ss : SharedState Page Tag) : Prop :=
  ∀ pid vpn slot, 0 < pid → ss.slotOf pid vpn = some slot → slot < 2 ^ 20

variable (aead) in
theorem readFromSwap_post (h : ss.Addressed) (pid : Fin 256) (vaddr : Nat) :
    Post (readFromSwap aead pid vaddr) (fun page ss' => if isMappedFlash vaddr then ss' = ss
        else ∃ slot, Retrieved aead ss pid vaddr page slot ss')
      (fun _ _ => False) ss := by
  unfold readFromSwap
  rw [post_ite]
  refine ⟨fun hflash => ?_, fun hflash => ?_⟩
  · rw [post_gets, if_pos hflash]
  · simp only [if_neg hflash]
    by_cases hpid : 0 < pid.val ∧ pid.val ≤ ss.pidCount
    swap
    · simp only [ptWalk, post_bind, post_get, post_assert, decide_eq_true_eq]
      exact fun h => absurd h hpid
    apply (ptWalk_total hpid vaddr).post.bind
    intro place ss1 hplace
    cases hslot : ss.slotOf pid (vaddr / pageSize) with
    | none =>
      rw [hslot] at hplace
      obtain rfl := hplace
      trivial
    | some slot =>
      rw [hslot] at hplace
      obtain ⟨rfl, roots, rfl, hplaced⟩ := hplace
      have hbound := h pid _ slot hpid.1 hslot
      have hpaddr : slot * pageSize % 2 ^ 32 + vaddr % pageSize = slot * pageSize + vaddr % pageSize := by
        simp only [pageSize]
        omega
      have hdiv : (slot * pageSize + vaddr % pageSize) / pageSize = slot := by
        simp only [pageSize]
        omega
      dsimp only
      rw [hpaddr, hdiv, post_bind, post_get, post_bind, post_assert]
      intro _
      rw [post_bind, post_modify, post_bind, post_get]
      apply (decryptRetrying_post _ timeoutRetries).imp
      rintro page _ ⟨haligned, hdecrypted, rfl⟩
      dsimp only at haligned hdecrypted
      have haligned : vaddr % pageSize = 0 := by
        simp only [pageSize] at haligned ⊢
        omega
      have hcall : (⟨update ss.counts slot (ss.counts slot % flgSwapUsed) slot,
          slot * pageSize + vaddr % pageSize, vaddr, pid⟩ : CipherCall) = ss.readCall slot pid (vaddr / pageSize) := by
        rw [readCall, update_self, haligned, Nat.div_mul_cancel (Nat.dvd_of_mod_eq_zero haligned), Nat.add_zero]
      rw [hdiv, hcall] at hdecrypted
      exact ⟨slot, hpid.1, haligned, hslot, rfl, rfl, rfl, rfl, rfl, rfl,
        congrArg (· :: ss.decryptions) hcall, hdecrypted, hplaced⟩

end Effects

/-- An eviction, with the contents of the page if the kernel gives it, or a retrieval, with the
contents that it returns. -/
inductive Event (Page : Type) where
  | evict (candidate : SwapAlloc) (stolen : Option Page)
  | retrieve (pid : Fin 256) (vaddr : Nat) (page : Page)

abbrev Store (Page : Type) := Fin 256 × Nat → Option Page

/-- An eviction puts a page into the store, and a retrieval takes it out. -/
def Event.store (store : Store Page) : Event Page → Store Page
  | evict candidate (some page) =>
    update store (candidate.rawPid, candidate.vpn) (some page)
  | evict _ none => store
  | retrieve pid vaddr _ => update store (pid, vaddr / pageSize) none

/-- What is stored after a run: for each page, the contents of its last eviction if it has not been
retrieved since. -/
def stored (events : List (Event Page)) : Store Page := events.foldl Event.store fun _ => none

def Step (aead : Aead Page Tag) (ss : SharedState Page Tag) (event : Event Page)
    (ss' : SharedState Page Tag) : Prop :=
  match event with
  | .evict candidate stolen =>
    writeToSwapInner aead candidate stolen ss = .ok () ss' ∨
      ∃ e, writeToSwapInner aead candidate stolen ss = .err e ss'
  | .retrieve pid vaddr page => readFromSwap aead pid vaddr ss = .ok page ss'

namespace SharedState

/-- No two pages have one slot, and every slot that a page has is in use. -/
structure Sound (ss : SharedState Page Tag) : Prop where
  slots : ss.slots ≤ 2 ^ 20
  used : ∀ pid vpn slot, 0 < pid → ss.slotOf pid vpn = some slot →
    slot < ss.slots ∧ ss.free slot = false
  distinct : ∀ p v q w slot, 0 < p → 0 < q → ss.slotOf p v = some slot →
    ss.slotOf q w = some slot → p = q ∧ v = w

theorem Sound.addressed (h : ss.Sound) : ss.Addressed :=
  fun pid vpn slot hpid hslot => (h.used pid vpn slot hpid hslot).1.trans_le h.slots

/-- The last call of `encrypt_swap_to` for a page of a process. -/
def lastEncryption (ss : SharedState Page Tag) (pid vpn : Nat) : Option CipherCall :=
  ss.encryptions.find? fun call => call.pid = pid ∧ call.vaddr = vpn * pageSize

/-- The slot of a page holds the contents, under the nonce with which it will be read. -/
structure Holds (aead : Aead Page Tag) (ss : SharedState Page Tag) (pid vpn : Nat) (page : Page)
    (slot : Nat) : Prop where
  owner : 0 < pid ∧ pid ≤ ss.pidCount
  place : ss.slotOf pid vpn = some slot
  call : ss.lastEncryption pid vpn = some (ss.readCall slot pid vpn)
  data : ss.data slot = (aead.encrypt (ss.readCall slot pid vpn).nonce page).1
  macs : ss.macs slot = (aead.encrypt (ss.readCall slot pid vpn).nonce page).2

/-- The swapper has what is in the store. -/
structure Represents (aead : Aead Page Tag) (ss : SharedState Page Tag) (store : Store Page) :
    Prop where
  sound : ss.Sound
  holds : ∀ pid vpn page, store (pid, vpn) = some page → ∃ slot, ss.Holds aead pid vpn page slot

end SharedState

section Simulation

variable {aead : Aead Page Tag} {store : Store Page}

open SharedState

variable {candidate : SwapAlloc} {page : Page} {slot q w k : Nat}

section

variable (h : Evicted aead ss candidate page slot ss')

include h

theorem Evicted.slotOf_cases (hq : 0 < q) (hk : ss'.slotOf q w = some k) :
    (q = candidate.rawPid ∧ w = candidate.vpn ∧ k = slot) ∨
      (¬(q = candidate.rawPid ∧ w = candidate.vpn) ∧ ss.slotOf q w = some k) := by
  rw [h.placed q w hq] at hk
  split at hk
  next heq => exact Or.inl ⟨heq.1, heq.2, (Option.some.inj hk).symm⟩
  next hne => exact Or.inr ⟨hne, hk⟩

theorem Evicted.slot_ne (hsound : ss.Sound) (hq : 0 < q) (hk : ss.slotOf q w = some k) : k ≠ slot := by
  rintro rfl
  have hused := (hsound.used q w k hq hk).2
  rw [h.free] at hused
  nomatch hused

theorem Evicted.sound (hsound : ss.Sound) : ss'.Sound := by
  refine ⟨h.slots ▸ hsound.slots, ?_, ?_⟩
  · intro q w k hq hk
    rw [h.slots, SharedState.free, h.counts]
    rcases h.slotOf_cases hq hk with ⟨-, -, rfl⟩ | ⟨-, hk⟩
    · refine ⟨h.range, decide_eq_false ?_⟩
      rw [update_self]
      simp only [nextCall, flgSwapUsed]
      omega
    · rw [update_of_ne (h.slot_ne hsound hq hk)]
      exact hsound.used q w k hq hk
  · intro p v q w k hp hq hpk hqk
    rcases h.slotOf_cases hp hpk with ⟨rfl, rfl, rfl⟩ | ⟨-, hpk⟩ <;>
      rcases h.slotOf_cases hq hqk with ⟨rfl, rfl, heq⟩ | ⟨-, hqk⟩
    · exact ⟨rfl, rfl⟩
    · exact absurd rfl (h.slot_ne hsound hq hqk)
    · exact absurd heq (h.slot_ne hsound hp hpk)
    · exact hsound.distinct p v q w k hp hq hpk hqk

theorem Evicted.lastEncryption (q w : Nat) :
    ss'.lastEncryption q w = if q = candidate.rawPid ∧ w = candidate.vpn then some (ss.nextCall slot candidate)
      else ss.lastEncryption q w := by
  have hvpn : (ss.nextCall slot candidate).vaddr = w * pageSize ↔ w = candidate.vpn := by
    simp only [nextCall, SwapAlloc.vaddr, pageSize]
    omega
  rw [SharedState.lastEncryption, h.encryptions, List.find?_cons]
  by_cases heq : q = candidate.rawPid ∧ w = candidate.vpn
  · rw [if_pos heq, decide_eq_true ⟨heq.1.symm, hvpn.mpr heq.2⟩]
  · rw [if_neg heq, decide_eq_false fun hcall => heq ⟨hcall.1.symm, hvpn.mp hcall.2⟩]
    rfl

theorem Evicted.readCall : ss'.readCall slot candidate.rawPid candidate.vpn = ss.nextCall slot candidate := by
  have hcount : ss'.counts slot % flgSwapUsed = (ss.nextCall slot candidate).swapCount := by
    rw [h.counts, update_self]
    simp only [nextCall, flgSwapUsed]
    omega
  rw [SharedState.readCall, hcount]
  rfl

theorem Evicted.represents (hrep : ss.Represents aead store) :
    ss'.Represents aead ((Event.evict candidate (some page)).store store) := by
  refine ⟨h.sound hrep.sound, ?_⟩
  intro pid vpn page' hpage
  by_cases heq : (pid, vpn) = (candidate.rawPid, (candidate.vpn : Nat))
  · obtain ⟨rfl, rfl⟩ := Prod.mk.inj heq
    obtain rfl : page = page' := by simpa [Event.store] using hpage
    refine ⟨slot, h.pidCount ▸ h.owner, ?_, ?_, ?_, ?_⟩
    · rw [h.placed _ _ h.owner.1, if_pos ⟨rfl, rfl⟩]
    · rw [h.lastEncryption, if_pos ⟨rfl, rfl⟩, h.readCall]
    · rw [h.data, update_self, h.readCall]
    · rw [h.macs, update_self, h.readCall]
  · have hne : ¬((pid : Nat) = candidate.rawPid ∧ vpn = candidate.vpn) :=
      fun hsame => heq (Prod.ext (Fin.ext hsame.1) hsame.2)
    have hpage : store (pid, vpn) = some page' := by
      simpa [Event.store, update_of_ne heq] using hpage
    obtain ⟨k, hk⟩ := hrep.holds pid vpn page' hpage
    have hother := h.slot_ne hrep.sound hk.owner.1 hk.place
    have hcall : ss'.readCall k pid vpn = ss.readCall k pid vpn := by
      rw [SharedState.readCall, h.counts, update_of_ne hother]
      rfl
    refine ⟨k, h.pidCount ▸ hk.owner, ?_, ?_, ?_, ?_⟩
    · rw [h.placed _ _ hk.owner.1, if_neg hne]
      exact hk.place
    · rw [h.lastEncryption, if_neg hne, hcall]
      exact hk.call
    · rw [h.data, update_of_ne hother, hcall]
      exact hk.data
    · rw [h.macs, update_of_ne hother, hcall]
      exact hk.macs

end

variable {pid vaddr : Nat}

theorem Retrieved.slotOf_cases (h : Retrieved aead ss pid vaddr page slot ss') (hq : 0 < q)
    (hk : ss'.slotOf q w = some k) : ¬(q = pid ∧ w = vaddr / pageSize) ∧ ss.slotOf q w = some k := by
  rw [h.placed q w hq] at hk
  split at hk
  · nomatch hk
  next hne => exact ⟨hne, hk⟩

theorem Retrieved.slot_ne (hsound : ss.Sound) (h : Retrieved aead ss pid vaddr page slot ss')
    (hq : 0 < q) (hne : ¬(q = pid ∧ w = vaddr / pageSize)) (hk : ss.slotOf q w = some k) : k ≠ slot := by
  rintro rfl
  exact hne (hsound.distinct q w pid _ k hq h.owner hk h.place)

theorem Retrieved.sound (hsound : ss.Sound) (h : Retrieved aead ss pid vaddr page slot ss') : ss'.Sound := by
  refine ⟨h.slots ▸ hsound.slots, ?_, ?_⟩
  · intro q w k hq hk
    obtain ⟨hne, hk⟩ := h.slotOf_cases hq hk
    rw [h.slots, free, h.counts, update_of_ne (h.slot_ne hsound hq hne hk)]
    exact hsound.used q w k hq hk
  · intro p v q w k hp hq hpk hqk
    exact hsound.distinct p v q w k hp hq (h.slotOf_cases hp hpk).2 (h.slotOf_cases hq hqk).2

theorem store_retrieve {pid q : Fin 256} {page' : Page}
    (h : (Event.retrieve pid vaddr page).store store (q, w) = some page') :
    ¬((q : Nat) = pid ∧ w = vaddr / pageSize) ∧ store (q, w) = some page' := by
  by_cases heq : (q, w) = (pid, vaddr / pageSize)
  · rw [heq] at h
    simp [Event.store] at h
  · refine ⟨fun hsame => heq (Prod.ext (Fin.ext hsame.1) hsame.2), ?_⟩
    simpa [Event.store, update_of_ne heq] using h

theorem Retrieved.represents {pid : Fin 256} (hrep : ss.Represents aead store)
    (h : Retrieved aead ss pid vaddr page slot ss') :
    ss'.Represents aead ((Event.retrieve pid vaddr page).store store) := by
  refine ⟨h.sound hrep.sound, ?_⟩
  intro q w page' hpage
  obtain ⟨hne, hpage⟩ := store_retrieve hpage
  obtain ⟨k, hk⟩ := hrep.holds q w page' hpage
  have hother := h.slot_ne hrep.sound hk.owner.1 hne hk.place
  have hcall : ss'.readCall k q w = ss.readCall k q w := by
    rw [readCall, h.counts, update_of_ne hother]
    rfl
  refine ⟨k, h.pidCount ▸ hk.owner, ?_, ?_, ?_, ?_⟩
  · rw [h.placed _ _ hk.owner.1, if_neg hne]
    exact hk.place
  · rw [lastEncryption, h.encryptions, hcall]
    exact hk.call
  · rw [h.data, hcall]
    exact hk.data
  · rw [h.macs, hcall]
    exact hk.macs

/-- Each event does to the pages what it does to the store. -/
theorem step_represents {event : Event Page} (hrep : ss.Represents aead store)
    (hstep : Step aead ss event ss') : ss'.Represents aead (event.store store) := by
  cases event with
  | evict candidate stolen =>
    have hpost := writeToSwapInner_post ss aead candidate stolen
    rcases hstep with hok | ⟨e, herr⟩
    · obtain ⟨page, slot, rfl, hevicted⟩ := hpost.ok hok
      exact hevicted.represents hrep
    · obtain ⟨rfl, rfl⟩ := hpost.err herr
      exact hrep
  | retrieve pid vaddr page =>
    have hread := (readFromSwap_post aead hrep.sound.addressed pid vaddr).ok hstep
    split at hread
    · subst hread
      exact ⟨hrep.sound, fun q w page' hpage => hrep.holds q w page' (store_retrieve hpage).2⟩
    · obtain ⟨slot, hretrieved⟩ := hread
      exact hretrieved.represents hrep

end Simulation

section Retrieval

variable {aead : Aead Page Tag}

open SharedState

theorem decryptRetrying_total {call : CipherCall} (page : Page) (retries : Nat) (haligned : call.offset % pageSize = 0)
    (hdecrypt : aead.decrypt call.nonce (ss.data (call.offset / pageSize))
      (ss.macs (call.offset / pageSize)) = some page) :
    Total (decryptRetrying aead call (retries + 1))
      (fun page' ss' => page' = page ∧ ss'.decryptions = call :: ss.decryptions)
      (fun _ _ => False) ss := by
  rw [decryptRetrying, decryptSwapFrom, total_bind, total_bind, total_assert]
  refine ⟨decide_eq_true haligned, ?_⟩
  rw [total_bind, total_modify, total_bind, total_get, total_pure]
  dsimp only
  rw [hdecrypt]
  exact ⟨rfl, rfl⟩

/-- A page that is held comes back with its contents, in one decryption. -/
theorem readFromSwap_total {pid : Fin 256} {vpn slot : Nat} {page : Page} (hsound : ss.Sound)
    (h : ss.Holds aead pid vpn page slot) (hflash : isMappedFlash (vpn * pageSize) = false) :
    Total (readFromSwap aead pid (vpn * pageSize)) (fun page' ss' => page' = page ∧
        ss'.decryptions = ss.readCall slot pid vpn :: ss.decryptions)
      (fun _ _ => False) ss := by
  have hrange := hsound.used pid vpn slot h.owner.1 h.place
  have hslots := hsound.slots
  unfold readFromSwap
  rw [hflash, if_neg nofun]
  apply (ptWalk_total h.owner _).bind
  intro place ss1 hplace
  rw [mul_pageSize_div, h.place] at hplace
  obtain ⟨rfl, roots, rfl, -⟩ := hplace
  have hpaddr : slot * pageSize % 2 ^ 32 + vpn * pageSize % pageSize = slot * pageSize := by
    simp only [pageSize]
    omega
  dsimp only
  rw [hpaddr, mul_pageSize_div, total_bind, total_get, total_bind, total_assert]
  refine ⟨decide_eq_true hrange.1, ?_⟩
  rw [total_bind, total_modify, total_bind, total_get]
  dsimp only
  rw [update_self]
  apply decryptRetrying_total page 2 (Nat.mul_mod_left ..)
  rw [mul_pageSize_div]
  have hdecrypt : aead.decrypt (ss.readCall slot pid vpn).nonce (ss.data slot) (ss.macs slot) = some page := by
    rw [h.data, h.macs, aead.correct]
  exact hdecrypt

end Retrieval

open SharedState in
/-- After any run of evictions and retrievals no two pages have one slot. A page evicted and not
retrieved since is decrypted with the nonce of that eviction and comes back with its contents, if
and only if its address is not taken for flash. -/
theorem retrieval_yields_the_last_eviction (aead : Aead Page Tag) (start s : SharedState Page Tag)
    (hstart : start.Sound) (events : List (Event Page))
    (run : Run (Step aead) start events s) :
    (∀ p v q w slot, 0 < p → 0 < q → s.slotOf p v = some slot → s.slotOf q w = some slot →
      p = q ∧ v = w) ∧
    ∀ (pid : Fin 256) (vpn : Nat) (page : Page), stored events (pid, vpn) = some page →
      ((∃ call s', readFromSwap aead pid (vpn * pageSize) s = .ok page s' ∧
          s.lastEncryption pid vpn = some call ∧ s'.decryptions = call :: s.decryptions) ↔
        isMappedFlash (vpn * pageSize) = false) := by
  have hrep : s.Represents aead (stored events) := by
    have hempty : start.Represents aead fun _ => none := ⟨hstart, fun _ _ _ h => by nomatch h⟩
    refine run.simulation (R := fun s store => s.Represents aead store) hempty ?_
    intro s store event s' hrep hstep
    exact step_represents hrep hstep
  refine ⟨hrep.sound.distinct, ?_⟩
  intro pid vpn page hpage
  obtain ⟨slot, hholds⟩ := hrep.holds pid vpn page hpage
  constructor
  · rintro ⟨call, s', hread, -, hdecryptions⟩
    by_contra hflash
    have hpost := (readFromSwap_post aead hrep.sound.addressed pid _).ok hread
    rw [if_pos (by simpa using hflash)] at hpost
    rw [hpost] at hdecryptions
    exact absurd hdecryptions (by simp)
  · intro hflash
    obtain ⟨_, s', hread, rfl, hdecryptions⟩ :=
      (readFromSwap_total hrep.sound hholds hflash).exists_ok
    exact ⟨_, s', hread, hholds.call, hdecryptions⟩

/-- A cipher that leaves the page as it is and has the nonce for a code. -/
def echo : Aead Nat (List Nat) where
  encrypt nonce page := (page, nonce)
  decrypt nonce page tag := if tag = nonce then some page else none
  correct _ _ := if_pos rfl

def emptySwap : SharedState Nat (List Nat) where
  roots := fun _ _ => none
  pidCount := 8
  counts := fun _ => 0
  slots := 1
  freeSwapSearchOrigin := 0
  data := fun _ => 0
  macs := fun _ => []
  flash := fun _ => 0
  encryptions := []
  decryptions := []

theorem emptySwap_sound : emptySwap.Sound := ⟨by decide, nofun, nofun⟩

/-- A page at 0xf0000000 is evicted to swap, and the retrieval takes it for a page of the flash. -/
theorem page_is_retrieved_from_flash :
    ∃ s s', Run (Step echo) emptySwap [.evict ⟨5, 0xf0000⟩ (some 7)] s ∧
      ¬(0xb0000000 ≤ 0xf0000 * pageSize ∧ 0xf0000 * pageSize < 0xc0000000) ∧
      stored [.evict ⟨5, 0xf0000⟩ (some 7)] (5, 0xf0000) = some 7 ∧
      readFromSwap echo 5 (0xf0000 * pageSize) s = .ok 0 s' ∧ s'.decryptions = [] := by
  have hevict : (writeToSwapInner echo ⟨5, 0xf0000⟩ (some 7) emptySwap).returns
      (fun _ s => (readFromSwap echo 5 (0xf0000 * pageSize) s).returns
        fun page s' => decide (page = 0) && decide (s'.decryptions = [])) = true := by
    decide +kernel
  obtain ⟨_, s, hrun, htest⟩ := Outcome.exists_of_returns hevict
  obtain ⟨page, s', hread, htest⟩ := Outcome.exists_of_returns htest
  rw [Bool.and_eq_true, decide_eq_true_eq, decide_eq_true_eq] at htest
  obtain ⟨rfl, hdecryptions⟩ := htest
  exact ⟨s, s', .cons (Or.inl hrun) .nil, by decide, by decide, hread, hdecryptions⟩

theorem evicted_page_is_retrieved :
    ∃ s s', Run (Step echo) emptySwap [.evict ⟨5, 0x40000⟩ (some 7)] s ∧
      readFromSwap echo 5 (0x40000 * pageSize) s = .ok 7 s' := by
  have hevict : (writeToSwapInner echo ⟨5, 0x40000⟩ (some 7) emptySwap).returns
      (fun _ _ => true) = true := rfl
  obtain ⟨_, s, hrun, -⟩ := Outcome.exists_of_returns hevict
  have hrun : Run (Step echo) emptySwap [.evict ⟨5, 0x40000⟩ (some 7)] s :=
    .cons (Or.inl hrun) .nil
  obtain ⟨_, s', hread, -, -⟩ := ((retrieval_yields_the_last_eviction echo emptySwap s
    emptySwap_sound _ hrun).2 5 0x40000 7 (by decide)).mpr (by decide)
  exact ⟨s, s', hrun, hread⟩

namespace SharedState

def writes (ss : SharedState Page Tag) (slot : Nat) : Nat :=
  ss.encryptions.countP fun call => call.offset = slot * pageSize

/-- The count of a slot at a call was lower by the number of calls for the slot since then. -/
def Counted (ss : SharedState Page Tag) : Prop :=
  ∀ call ∈ ss.encryptions, ∃ slot < ss.slots, call.offset = slot * pageSize ∧
    call.swapCount < flgSwapUsed ∧
    ∃ since < ss.writes slot, (call.swapCount + since) % flgSwapUsed = ss.counts slot % flgSwapUsed

end SharedState

section Nonces

variable {aead : Aead Page Tag}

open SharedState

variable {candidate : SwapAlloc} {page : Page} {slot : Nat}

theorem Evicted.writes (h : Evicted aead ss candidate page slot ss') (k : Nat) :
    ss'.writes k = ss.writes k + if k = slot then 1 else 0 := by
  have hoffset : (ss.nextCall slot candidate).offset = k * pageSize ↔ k = slot := by
    simp only [nextCall, pageSize]
    omega
  rw [SharedState.writes, h.encryptions, List.countP_cons, SharedState.writes]
  simp only [decide_eq_true_eq, hoffset]

theorem Evicted.counted (hcounted : ss.Counted) (h : Evicted aead ss candidate page slot ss') : ss'.Counted := by
  intro call hcall
  rw [h.encryptions, List.mem_cons] at hcall
  rw [h.slots]
  rcases hcall with rfl | hcall
  · refine ⟨slot, h.range, rfl, Nat.mod_lt _ (by decide), 0, ?_, ?_⟩
    · rw [h.writes, if_pos rfl]
      exact Nat.succ_pos _
    · rw [h.counts, update_self, Nat.add_zero, Nat.add_mod_right]
  · obtain ⟨k, hk, hoffset, hcount, since, hsince, hcounts⟩ := hcounted call hcall
    by_cases heq : k = slot
    · -- one more call for the slot since then, and one more in its count
      subst heq
      refine ⟨k, hk, hoffset, hcount, since + 1, ?_, ?_⟩
      · rw [h.writes, if_pos rfl]
        omega
      · rw [h.counts, update_self]
        simp only [nextCall, flgSwapUsed] at *
        omega
    · refine ⟨k, hk, hoffset, hcount, since, ?_, ?_⟩
      · rwa [h.writes, if_neg heq]
      · rwa [h.counts, update_of_ne heq]

theorem Retrieved.counted {pid vaddr : Nat} (hcounted : ss.Counted)
    (h : Retrieved aead ss pid vaddr page slot ss') : ss'.Counted := by
  intro call hcall
  rw [h.encryptions] at hcall
  obtain ⟨k, hk, hoffset, hcount, since, hsince, hcounts⟩ := hcounted call hcall
  refine ⟨k, h.slots ▸ hk, hoffset, hcount, since, ?_, ?_⟩
  · rwa [writes, h.encryptions]
  · rw [hcounts, h.counts]
    by_cases heq : k = slot
    · rw [heq, update_self, Nat.mod_mod]
    · rw [update_of_ne heq]

/-- The nonce of an eviction is new while its slot has been written fewer times than there are
counts. -/
theorem Evicted.nonce_new (hsound : ss.Sound) (hcounted : ss.Counted)
    (h : Evicted aead ss candidate page slot ss') (hwrites : ss'.writes slot < 2 ^ 31) :
    (ss.nextCall slot candidate).nonce ∉ ss.encryptions.map CipherCall.nonce := by
  intro hold
  obtain ⟨call, hcall, hnonce⟩ := List.mem_map.mp hold
  obtain ⟨k, hk, hoffset, hcount, since, hsince, hcounts⟩ := hcounted call hcall
  have hslots := hsound.slots
  have hrange := h.range
  have hnext : (ss.nextCall slot candidate).swapCount < flgSwapUsed := Nat.mod_lt _ (by decide)
  have hoffsets : (ss.nextCall slot candidate).offset = slot * pageSize := rfl
  simp only [CipherCall.nonce, hoffset, hoffsets, toBeBytes, List.take_succ_cons, List.take_zero,
    List.cons_append, List.nil_append, List.cons.injEq, true_and, and_true, pageSize] at hnonce
  obtain ⟨heq, rfl⟩ : call.swapCount = (ss.nextCall slot candidate).swapCount ∧ k = slot := by
    simp only [flgSwapUsed] at hcount hnext
    omega
  rw [h.writes, if_pos rfl] at hwrites
  simp only [nextCall, flgSwapUsed] at heq hcounts
  omega

/-- What holds of the nonces in every run. -/
structure Fresh (ss : SharedState Page Tag) : Prop where
  sound : ss.Sound
  counted : ss.Counted
  nonces : (∀ slot, ss.writes slot < 2 ^ 31) → (ss.encryptions.map CipherCall.nonce).Nodup

theorem Evicted.fresh (hfresh : Fresh ss) (h : Evicted aead ss candidate page slot ss') : Fresh ss' := by
  refine ⟨h.sound hfresh.sound, h.counted hfresh.counted, fun hwrites => ?_⟩
  rw [h.encryptions, List.map_cons, List.nodup_cons]
  refine ⟨h.nonce_new hfresh.sound hfresh.counted (hwrites slot), hfresh.nonces fun k => ?_⟩
  have := hwrites k
  rw [h.writes] at this
  omega

theorem step_fresh {event : Event Page} (hfresh : Fresh ss) (hstep : Step aead ss event ss') : Fresh ss' := by
  cases event with
  | evict candidate stolen =>
    have hpost := writeToSwapInner_post ss aead candidate stolen
    rcases hstep with hok | ⟨e, herr⟩
    · obtain ⟨page, slot, -, hevicted⟩ := hpost.ok hok
      exact hevicted.fresh hfresh
    · obtain ⟨-, rfl⟩ := hpost.err herr
      exact hfresh
  | retrieve pid vaddr page =>
    have hread := (readFromSwap_post aead hfresh.sound.addressed pid vaddr).ok hstep
    split at hread
    · rwa [hread]
    · obtain ⟨slot, hretrieved⟩ := hread
      refine ⟨hretrieved.sound hfresh.sound, hretrieved.counted hfresh.counted, ?_⟩
      unfold writes
      rw [hretrieved.encryptions]
      exact hfresh.nonces

end Nonces

/-- In every run in which each slot is written fewer than 2³¹ times, the nonces of all calls of
`encrypt_swap_to` are distinct. -/
theorem nonces_are_distinct (aead : Aead Page Tag) (start s : SharedState Page Tag)
    (hstart : start.Sound) (hnew : start.encryptions = []) (events : List (Event Page))
    (run : Run (Step aead) start events s) (hwrites : ∀ slot, s.writes slot < 2 ^ 31) :
    (s.encryptions.map CipherCall.nonce).Nodup := by
  have hfresh : Fresh s := by
    refine run.invariant (I := Fresh) ⟨hstart, ?_, ?_⟩ fun _ _ _ h hstep => step_fresh h hstep
    · intro call hcall
      rw [hnew] at hcall
      nomatch hcall
    · intro _
      rw [hnew]
      exact List.nodup_nil
  exact hfresh.nonces hwrites

theorem nonce_of_second_eviction_differs :
    ∃ s, Run (Step echo) emptySwap
        [.evict ⟨5, 0x40000⟩ (some 7), .retrieve 5 (0x40000 * pageSize) 7,
          .evict ⟨5, 0x40000⟩ (some 8)] s ∧
      s.encryptions.length = 2 ∧ (s.encryptions.map CipherCall.nonce).Nodup := by
  have hruns : (writeToSwapInner echo ⟨5, 0x40000⟩ (some 7) emptySwap).returns (fun _ s1 =>
      (readFromSwap echo 5 (0x40000 * pageSize) s1).returns fun page s2 => decide (page = 7) &&
        (writeToSwapInner echo ⟨5, 0x40000⟩ (some 8) s2).returns fun _ s =>
          decide (s.encryptions.length = 2)) = true := rfl
  obtain ⟨_, s1, hfirst, htest⟩ := Outcome.exists_of_returns hruns
  obtain ⟨page, s2, hread, htest⟩ := Outcome.exists_of_returns htest
  obtain ⟨hpage, htest⟩ := Bool.and_eq_true_iff.mp htest
  obtain rfl := of_decide_eq_true hpage
  obtain ⟨_, s, hsecond, hlength⟩ := Outcome.exists_of_returns htest
  have hlength := of_decide_eq_true hlength
  have hrun : Run (Step echo) emptySwap [.evict ⟨5, 0x40000⟩ (some 7),
      .retrieve 5 (0x40000 * pageSize) 7, .evict ⟨5, 0x40000⟩ (some 8)] s :=
    .cons (Or.inl hfirst) (.cons hread (.cons (Or.inl hsecond) .nil))
  refine ⟨s, hrun, hlength, nonces_are_distinct echo emptySwap s emptySwap_sound rfl _ hrun ?_⟩
  intro slot
  have hle : s.writes slot ≤ s.encryptions.length := List.countP_le_length
  omega

end

variable {Page Tag : Type} {aead : Aead Page Tag} {ss ss' : SharedState Page Tag}
  {candidate : SwapAlloc} {page : Page} {slot : Nat}

open Kernel (pageSize)

namespace SharedState

def used (ss : SharedState Page Tag) : Finset Nat :=
  (Finset.range ss.slots).filter fun slot => ss.free slot = false

theorem nextFreePage_isSome (h : ss.used.card < ss.slots) : ss.nextFreePage.isSome = true := by
  by_contra hnone
  rw [Option.not_isSome_iff_eq_none, nextFreePage, List.find?_eq_none] at hnone
  have hall : ss.used = Finset.range ss.slots := by
    refine Finset.filter_true_of_mem fun k hk => ?_
    have hk := Finset.mem_range.mp hk
    obtain ⟨i, hi, rfl⟩ := Cyclic.exists_offset (Nat.mod_lt ss.freeSwapSearchOrigin (by omega)) hk
    rw [Nat.mod_add_mod]
    simpa using hnone _ (List.mem_map_of_mem (List.mem_range.mpr hi))
  rw [hall, Finset.card_range] at h
  exact absurd h (Nat.lt_irrefl _)

end SharedState

theorem Evicted.card_used (h : Evicted aead ss candidate page slot ss') : ss'.used.card = ss.used.card + 1 := by
  have hnew : slot ∉ ss.used := by simp [SharedState.used, h.free]
  have hused : ((ss.nextCall slot candidate).swapCount + flgSwapUsed) / flgSwapUsed % 2 = 1 := by
    simp only [SharedState.nextCall, flgSwapUsed]
    omega
  rw [← Finset.card_insert_of_notMem hnew]
  congr 1
  ext k
  by_cases hk : k = slot
  · subst hk
    simp [SharedState.used, SharedState.free, h.slots, h.counts, h.range, hused]
  · simp [SharedState.used, SharedState.free, h.slots, h.counts, hk]

theorem Retrieved.card_used {pid vaddr : Nat} (hsound : ss.Sound)
    (h : Retrieved aead ss pid vaddr page slot ss') : ss'.used.card + 1 = ss.used.card := by
  have hmem : slot ∈ ss.used := by simpa [used] using hsound.used pid _ slot h.owner h.place
  rw [← Finset.card_erase_add_one hmem]
  congr 2
  ext k
  by_cases hk : k = slot <;> simp [used, free, h.slots, h.counts, hk]

abbrev Pages := Finset (Fin 256 × Nat)

/-- A step, with the pages that are out: the kernel gives a page that is not, and asks for one that
is. -/
def CycleStep (aead : Aead Page Tag) (s : SharedState Page Tag × Pages) (event : Event Page)
    (s' : SharedState Page Tag × Pages) : Prop :=
  Step aead s.1 event s'.1 ∧
    match event with
    | .evict candidate (some _) => (candidate.rawPid, candidate.vpn.val) ∉ s.2 ∧
        s'.2 = insert (candidate.rawPid, candidate.vpn.val) s.2
    | .evict _ none => s'.2 = s.2
    | .retrieve pid vaddr _ => (pid, vaddr / pageSize) ∈ s.2 ∧
        s'.2 = s.2.erase (pid, vaddr / pageSize)

def Event.fromFlash : Event Page → Bool
  | .retrieve _ vaddr _ => isMappedFlash vaddr
  | .evict _ _ => false

/-- As many slots are in use as pages are out, besides those in use at the start. So a set of pages
for which there are slots never runs out of them. -/
structure Conserves (start s : SharedState Page Tag) (out : Pages) : Prop where
  used : s.used.card = start.used.card + out.card
  room : ∀ pages, out ⊂ pages → start.used.card + pages.card ≤ start.slots →
    s.nextFreePage.isSome = true

theorem cycleStep_used {s s' : SharedState Page Tag × Pages} {event : Event Page}
    (hsound : s.1.Sound) (hstep : CycleStep aead s event s') :
    s'.1.Sound ∧ s'.1.slots = s.1.slots ∧
      s'.1.used.card + s.2.card = s.1.used.card + s'.2.card + [event].countP Event.fromFlash := by
  obtain ⟨hstep, hout⟩ := hstep
  cases event with
  | evict candidate stolen =>
    have hpost := writeToSwapInner_post s.1 aead candidate stolen
    rcases hstep with hok | ⟨e, herr⟩
    · obtain ⟨page, slot, rfl, hevicted⟩ := hpost.ok hok
      refine ⟨hevicted.sound hsound, hevicted.slots, ?_⟩
      rw [hevicted.card_used, hout.2, Finset.card_insert_of_notMem hout.1, List.countP_singleton]
      exact Nat.add_right_comm ..
    · obtain ⟨rfl, hsame⟩ := hpost.err herr
      rw [hsame, hout]
      exact ⟨hsound, rfl, rfl⟩
  | retrieve pid vaddr page =>
    have hread := (readFromSwap_post aead hsound.addressed pid vaddr).ok hstep
    have hcard := Finset.card_erase_add_one hout.1
    rw [← hout.2] at hcard
    rw [List.countP_singleton, Event.fromFlash]
    split at hread
    next hflash =>
      rw [hread, if_pos hflash]
      exact ⟨hsound, rfl, by omega⟩
    next hflash =>
      obtain ⟨slot, hretrieved⟩ := hread
      have hused := hretrieved.card_used hsound
      rw [if_neg hflash]
      exact ⟨hretrieved.sound hsound, hretrieved.slots, by omega⟩

/-- **Slots.** Over evictions and retrievals of any pages, the slots in use are those of the pages
that are out, just when no page was read from flash instead. -/
theorem slots_are_conserved_iff {start s : SharedState Page Tag} {out : Pages}
    (hstart : start.Sound) {events : List (Event Page)}
    (run : Run (CycleStep aead) (start, ∅) events (s, out)) :
    Conserves start s out ↔ ∀ event ∈ events, event.fromFlash = false := by
  have hcount : s.Sound ∧ s.slots = start.slots ∧
      s.used.card = start.used.card + out.card + events.countP Event.fromFlash := by
    refine run.history_invariant (I := fun es s => s.1.Sound ∧ s.1.slots = start.slots ∧
      s.1.used.card = start.used.card + s.2.card + es.countP Event.fromFlash) ⟨hstart, rfl, rfl⟩ ?_
    rintro es s e s' ⟨hsound, hslots, hused⟩ hstep
    obtain ⟨hsound', hslots', hused'⟩ := cycleStep_used hsound hstep
    refine ⟨hsound', hslots'.trans hslots, ?_⟩
    rw [List.countP_append]
    omega
  obtain ⟨-, hslots, hused⟩ := hcount
  have hnone : events.countP Event.fromFlash = 0 ↔ ∀ event ∈ events, event.fromFlash = false := by
    simp [List.countP_eq_zero]
  rw [← hnone]
  refine ⟨fun h => by have := h.used; omega, fun h => ⟨by omega, fun pages hsub hroom => ?_⟩⟩
  have hless := Finset.card_lt_card hsub
  exact nextFreePage_isSome (by omega)

/-- A page of process 5 is evicted to the only slot and retrieved. -/
theorem emptySwap_cycle (vpn : Fin (2 ^ 20)) (page : Nat) (test : SharedState Nat (List Nat) → Bool)
    (h : (writeToSwapInner echo ⟨5, vpn⟩ (some 7) emptySwap).returns (fun _ s =>
      (readFromSwap echo 5 (vpn * pageSize) s).returns fun found s' =>
        decide (found = page) && test s') = true) :
    ∃ s, Run (CycleStep echo) (emptySwap, ∅)
      [.evict ⟨5, vpn⟩ (some 7), .retrieve 5 (vpn * pageSize) page] (s, ∅) ∧ test s = true := by
  obtain ⟨_, s, hevict, h⟩ := Outcome.exists_of_returns h
  obtain ⟨found, s', hread, h⟩ := Outcome.exists_of_returns h
  obtain ⟨hfound, htest⟩ := Bool.and_eq_true_iff.mp h
  obtain rfl := of_decide_eq_true hfound
  have hvpn := mul_pageSize_div vpn
  have hfirst : CycleStep echo (emptySwap, ∅) (.evict ⟨5, vpn⟩ (some 7)) (s, {(5, vpn.val)}) :=
    ⟨.inl hevict, Finset.notMem_empty _, rfl⟩
  have hsecond : CycleStep echo (s, {(5, vpn.val)}) (.retrieve 5 (vpn * pageSize) found) (s', ∅) :=
    ⟨hread, by simp [hvpn], by simp [hvpn]⟩
  exact ⟨s', .cons hfirst (.cons hsecond .nil), htest⟩

theorem evicted_page_gives_its_slot_back :
    ∃ s, Run (CycleStep echo) (emptySwap, ∅)
        [.evict ⟨5, 0x40000⟩ (some 7), .retrieve 5 (0x40000 * pageSize) 7] (s, ∅) ∧
      Conserves emptySwap s ∅ := by
  obtain ⟨s, hrun, -⟩ := emptySwap_cycle 0x40000 7 (fun _ => true) (by decide +kernel)
  exact ⟨s, hrun, (slots_are_conserved_iff emptySwap_sound hrun).mpr (by decide)⟩

/-- A page of the flash window is evicted to swap and read back from flash: the only slot stays in
use. -/
theorem flash_page_keeps_its_slot :
    ∃ s, Run (CycleStep echo) (emptySwap, ∅)
        [.evict ⟨5, 0xb0000⟩ (some 7), .retrieve 5 (0xb0000 * pageSize) 0] (s, ∅) ∧
      ¬Conserves emptySwap s ∅ := by
  obtain ⟨s, hrun, hfull⟩ := emptySwap_cycle 0xb0000 0 (·.nextFreePage.isNone) (by decide +kernel)
  refine ⟨s, hrun, fun h => ?_⟩
  have hroom := h.room {(5, 0xb0000)} (Finset.empty_ssubset_singleton) (by decide)
  rw [Option.isNone_iff_eq_none.mp hfull] at hroom
  nomatch hroom

end BaochipXous.Swapper
