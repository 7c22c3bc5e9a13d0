import BaochipXous.Rram

/-!
The two passes of the loader over the programs that start in swap. Phase 1 copies the sections of
each program through one working page, encrypted to swap when it is full or the next section lies in
another page. Phase 2 computes the swap page of each virtual page again, from the page mapped last
and a counter.

The source image is given as it is decrypted. With `b` the difference between the swap page and the
virtual page, phase 1 keeps `b` over a section, and from one section to the next unless that one
starts more than a page ahead. Phase 2 keeps it over such gaps too.
-/

namespace BaochipXous.Loader

open Rram (Memory)

/-- A section of a program: `NOCOPY` sections take room in the image, and are zero in memory. -/
structure MiniElfSection where
  virt : Nat
  len : Nat
  noCopy : Bool

structure MiniElf where
  loadOffset : Nat
  sections : List MiniElfSection

/-- The boot arguments, as far as a process number is taken for them. -/
inductive KernelArgument where
  | iniE
  | iniF
  | iniS (inis : MiniElf)
  | other

/-- A page of the swap memory: what was encrypted, with the process and the virtual page of the nonce. -/
structure Slot where
  pid : Nat
  vpage : Nat
  bytes : Nat → UInt8

/-- `copy_processes` in the middle of a program. The counter is an integer: a program without
sections returns a page that it did not take. -/
structure Copying where
  swap : Int → Option Slot
  swapFreePage : Int
  workingPage : Option Int
  workingBuf : Nat → UInt8
  dirty : Bool
  srcSwapImgAddr : Nat
  lastCopyVaddr : Nat

def remainingInPage (addr : Nat) : Nat := 4096 - addr % 4096

variable (img : Memory)

variable (pid : Nat)

variable (s : MiniElfSection)

variable (c : Copying)

namespace Copying

/-- The working page is unwrapped here; there is one from the first section on. -/
def encryptSwapTo (pid vpage : Nat) (c : Copying) : Copying :=
  match c.workingPage with
  | some page => { c with swap := Function.update c.swap page (some ⟨pid, vpage, c.workingBuf⟩) }
  | none => c

def takePage : Copying :=
  { c with
    workingPage := some c.swapFreePage, workingBuf := fun _ => 0, dirty := false
    swapFreePage := c.swapFreePage + 1 }

/-- A section that does not start in the page of the last copy gets a page of its own. -/
def startSection : Copying :=
  match c.workingPage with
  | some _ =>
    if c.lastCopyVaddr / 4096 ≠ s.virt / 4096 then (c.encryptSwapTo pid (c.lastCopyVaddr / 4096)).takePage
    else c
  | none => c.takePage

/-- One piece, inside a page of the source and a page of the destination. -/
def copyPiece (noCopy : Bool) (dst copyable : Nat) (c : Copying) : Copying :=
  { c with
    workingBuf := fun i =>
      if noCopy = false ∧ dst % 4096 ≤ i ∧ i < dst % 4096 + copyable then
        img (c.srcSwapImgAddr + (i - dst % 4096))
      else c.workingBuf i
    dirty := true
    srcSwapImgAddr := c.srcSwapImgAddr + copyable }

/-- A page that is filled up by the piece is written, and the next one taken. -/
def copyRound (noCopy : Bool) (dst copyable : Nat) (c : Copying) : Copying :=
  if (dst + copyable) % 4096 = 0 then
    ((c.copyPiece img noCopy dst copyable).encryptSwapTo pid ((dst + copyable - 4096) / 4096)).takePage
  else c.copyPiece img noCopy dst copyable

def copyable (bytesToCopy dst : Nat) (c : Copying) : Nat :=
  min (min (remainingInPage c.srcSwapImgAddr) (remainingInPage dst)) bytesToCopy

def copyBytes (img : Memory) (pid : Nat) (noCopy : Bool) (bytesToCopy dst : Nat) (c : Copying) : Copying :=
  if bytesToCopy = 0 then { c with lastCopyVaddr := dst }
  else
    let n := c.copyable bytesToCopy dst
    copyBytes img pid noCopy (bytesToCopy - n) (dst + n) (c.copyRound img pid noCopy dst n)
termination_by bytesToCopy
decreasing_by
  simp only [Copying.copyable, remainingInPage]
  omega

def copySections (sections : List MiniElfSection) (c : Copying) : Copying :=
  sections.foldl (fun c s => (c.startSection pid s).copyBytes img pid s.noCopy s.len s.virt) c

/-- The last page is written, or given back if nothing was put into it. -/
def flush : Copying :=
  if c.dirty then c.encryptSwapTo pid (c.lastCopyVaddr / 4096)
  else { c with swapFreePage := c.swapFreePage - 1 }

end Copying

structure Phase1 where
  swap : Int → Option Slot
  swapFreePage : Int
  pid : Nat

variable (st : Phase1)

def Phase1.copying (inis : MiniElf) : Copying where
  swap := st.swap
  swapFreePage := st.swapFreePage
  workingPage := none
  workingBuf := fun _ => 0
  dirty := false
  srcSwapImgAddr := inis.loadOffset
  lastCopyVaddr := 0

def copyProcess : KernelArgument → Phase1
  | .iniE | .iniF => { st with pid := st.pid + 1 }
  | .iniS inis =>
    let c := ((st.copying inis).copySections img (st.pid + 1) inis.sections).flush (st.pid + 1)
    { swap := c.swap, swapFreePage := c.swapFreePage, pid := st.pid + 1 }
  | .other => st

variable (args : List KernelArgument)

def copyProcesses : Phase1 :=
  args.foldl (copyProcess img) ⟨fun _ => none, 0, 1⟩

abbrev SwapTables := Nat → Nat → Option Int

/-- `MiniElf::load` in the middle of a program. `last_mapped_xip` and `last_mapped_swap_virt` are
one value, here the number of the page. -/
structure Loading where
  tables : SwapTables
  lastSwapPage : Int
  lastMapped : Nat
  previousAddr : Nat

open Loading

namespace Loading

/-- An entry is never moved to another swap page. -/
def mapSwap (pid vpage : Nat) (m : Loading) : Option Loading :=
  if ∃ k ∈ m.tables pid vpage, k ≠ m.lastSwapPage then none
  else some { m with
    tables := fun p v => if p = pid ∧ v = vpage then some m.lastSwapPage else m.tables p v }

/-- The swap pages of a gap are passed over. -/
def skipGap (vpage : Nat) (m : Loading) : Loading :=
  if m.lastMapped ≠ 0 ∧ vpage - m.lastMapped > 1 then
    { m with lastSwapPage := m.lastSwapPage + ((vpage - m.lastMapped - 1 : Nat) : Int) }
  else m

def mapPages (pid : Nat) : (pagesToMap vpage : Nat) → Loading → Option Loading
  | 0, _, m => some m
  | pages + 1, vpage, m => do
    let m ← (m.skipGap vpage).mapSwap pid vpage
    mapPages pid pages (vpage + 1) { m with lastMapped := vpage, lastSwapPage := m.lastSwapPage + 1 }

end Loading

def pagesToMap : Nat :=
  let unalignedStartLen := (s.virt / 4096 + 1) * 4096 - s.virt
  if s.len ≤ unalignedStartLen then 1
  else
    let bytesToMap := s.len - unalignedStartLen
    1 + bytesToMap / 4096 + if bytesToMap % 4096 ≠ 0 then 1 else 0

namespace Loading

/-- The first page is left to the section before, if that one reached into it. -/
def loadSection (m : Loading) : Option Loading :=
  if s.virt < m.previousAddr ∨ s.len = 0 then none
  else
    let skip := if m.lastMapped = s.virt / 4096 then 1 else 0
    (m.mapPages pid (pagesToMap s - skip) (s.virt / 4096 + skip)).map fun m =>
      { m with previousAddr := s.virt + s.len }

def loadSections (pid : Nat) : List MiniElfSection → Loading → Option Loading
  | [], m => some m
  | s :: rest, m => (m.loadSection pid s).bind (loadSections pid rest)

end Loading

structure Phase2 where
  tables : SwapTables
  lastSwapPage : Int
  pid : Nat

def Phase2.loading (st : Phase2) : Loading := ⟨st.tables, st.lastSwapPage, 0, 0⟩

def loadProcess (st : Phase2) : KernelArgument → Option Phase2
  | .iniE | .iniF => some { st with pid := st.pid + 1 }
  | .iniS inis =>
    (st.loading.loadSections st.pid inis.sections).map fun m => ⟨m.tables, m.lastSwapPage, st.pid + 1⟩
  | .other => some st

def loadProcesses : List KernelArgument → Phase2 → Option Phase2
  | [], st => some st
  | arg :: rest, st => (loadProcess st arg).bind (loadProcesses rest)

def phase2 : Option Phase2 := loadProcesses args ⟨fun _ _ => none, 0, 2⟩

def swapProcesses : Nat → List KernelArgument → List (Nat × MiniElf)
  | _, [] => []
  | pid, .iniE :: rest | pid, .iniF :: rest => swapProcesses (pid + 1) rest
  | pid, .iniS inis :: rest => (pid, inis) :: swapProcesses (pid + 1) rest
  | pid, .other :: rest => swapProcesses pid rest

/-- The byte at a virtual address: zero where no section or a section without contents lies. -/
def byteAt (img : Memory) : Nat → List MiniElfSection → Memory
  | _, [], _ => 0
  | src, s :: rest, a =>
    if s.virt ≤ a ∧ a < s.virt + s.len then if s.noCopy then 0 else img (src + (a - s.virt))
    else byteAt img (src + s.len) rest a

def Stored (bytes : Memory) (pid : Nat) (swap : Int → Option Slot) (page : Int) (v : Nat) : Prop :=
  ∃ slot, swap page = some slot ∧ slot.pid = pid ∧ slot.vpage = v ∧
    ∀ i < 4096, slot.bytes i = bytes (v * 4096 + i)

/-- Every address of the program is mapped to a swap page that holds its page. -/
def PagesFound (swap : Int → Option Slot) (tables : SwapTables) (p : Nat × MiniElf) : Prop :=
  ∀ s ∈ p.2.sections, ∀ a, s.virt ≤ a → a < s.virt + s.len →
    ∃ k, tables p.1 (a / 4096) = some k ∧
      Stored (byteAt img p.2.loadOffset p.2.sections) p.1 swap k (a / 4096)

def DistinctPages (tables : SwapTables) : Prop :=
  ∀ p v p' v' k, tables p v = some k → tables p' v' = some k → p = p' ∧ v = v'

/-- Both phases come to the same placement of the pages. -/
def PhasesAgree : Prop :=
  ∃ st, phase2 args = some st ∧
    (∀ p ∈ swapProcesses 2 args, PagesFound img (copyProcesses img args).swap st.tables p) ∧
    DistinctPages st.tables ∧ st.lastSwapPage = (copyProcesses img args).swapFreePage

/-- Sections that are not empty, one after the other from an address on. -/
def Ordered : Nat → List MiniElfSection → Prop
  | _, [] => True
  | x, s :: rest => x ≤ s.virt ∧ 0 < s.len ∧ Ordered (s.virt + s.len) rest

/-- No section starts behind the page that follows the end of the section before. -/
def Tight : Nat → List MiniElfSection → Prop
  | _, [] => True
  | x, s :: rest => s.virt / 4096 ≤ x / 4096 + 1 ∧ Tight (s.virt + s.len) rest

/-- There is a first section, not in the page at zero, and no gap after it is too wide. -/
def Packed : List MiniElfSection → Prop
  | [] => False
  | s :: rest => 4096 ≤ s.virt ∧ Tight (s.virt + s.len) rest

def endOf : Nat → List MiniElfSection → Nat
  | x, [] => x
  | _, s :: rest => endOf (s.virt + s.len) rest

variable {sections : List MiniElfSection}

section Placement

variable {img bytes : Memory} {pid : Nat} {b : Int} {x : Nat} {c : Copying}

variable {src y : Nat}

theorem byteAt_before {a : Nat} (h : Ordered y sections) (ha : a < y) :
    byteAt img src sections a = 0 := by
  induction sections generalizing src y with
  | nil => rfl
  | cons s rest ih =>
    obtain ⟨hy, -, hrest⟩ := h
    rw [byteAt, if_neg (by omega)]
    exact ih hrest (by omega)

/-- The working page is the one of the address, and holds its page up to the address. -/
structure Working (bytes : Memory) (b : Int) (x : Nat) (c : Copying) : Prop where
  page : c.workingPage = some (b + (x / 4096 : Nat))
  free : c.swapFreePage = b + (x / 4096 : Nat) + 1
  buf : ∀ i < 4096, c.workingBuf i = if i < x % 4096 then bytes (x / 4096 * 4096 + i) else 0

namespace Working

theorem whole (h : Working bytes b x c) (hzero : ∀ a, x ≤ a → a / 4096 = x / 4096 → bytes a = 0) :
    ∀ i < 4096, c.workingBuf i = bytes (x / 4096 * 4096 + i) := by
  intro i hi
  rw [h.buf i hi]
  split_ifs with hlt
  · rfl
  · exact (hzero _ (by omega) (by omega)).symm

theorem forward (h : Working bytes b x c) {y : Nat} (hxy : x ≤ y) (hpage : y / 4096 = x / 4096)
    (hzero : ∀ a, x ≤ a → a < y → bytes a = 0) : Working bytes b y c := by
  refine ⟨by rw [hpage]; exact h.page, by rw [hpage]; exact h.free, fun i hi => ?_⟩
  rw [h.buf i hi, hpage]
  by_cases hlt : i < x % 4096
  · rw [if_pos hlt, if_pos (by omega)]
  · rw [if_neg hlt]
    split_ifs with hy
    · exact (hzero _ (by omega) (by omega)).symm
    · rfl

end Working

theorem working_takePage (hfree : c.swapFreePage = b + (y / 4096 : Nat))
    (hzero : ∀ a, a / 4096 = y / 4096 → a < y → bytes a = 0) : Working bytes b y c.takePage := by
  refine ⟨by simp only [Copying.takePage, hfree], by simp only [Copying.takePage, hfree], fun i hi => ?_⟩
  show (0 : UInt8) = _
  split_ifs with hy
  · exact (hzero _ (by omega) (by omega)).symm
  · rfl

variable {page : Int}

theorem encryptSwapTo_eq (hpage : c.workingPage = some page) (v : Nat) :
    c.encryptSwapTo pid v = { c with swap := Function.update c.swap page (some ⟨pid, v, c.workingBuf⟩) } := by
  simp only [Copying.encryptSwapTo, hpage]

variable {v : Nat}

theorem stored_encryptSwapTo (hpage : c.workingPage = some page)
    (hbuf : ∀ i < 4096, c.workingBuf i = bytes (v * 4096 + i)) :
    Stored bytes pid (c.encryptSwapTo pid v).swap page v := by
  rw [encryptSwapTo_eq hpage]
  exact ⟨_, Function.update_self .., rfl, rfl, hbuf⟩

theorem encryptSwapTo_swap_of_ne {k : Int} (hpage : c.workingPage = some page) (hk : k ≠ page) :
    (c.encryptSwapTo pid v).swap k = c.swap k := by
  rw [encryptSwapTo_eq hpage]
  exact Function.update_of_ne hk ..

variable {noCopy : Bool} {n : Nat}

theorem copyPiece_buf (h : Working bytes b x c)
    (hbytes : ∀ i < n, bytes (x + i) = if noCopy then 0 else img (c.srcSwapImgAddr + i)) :
    ∀ i < 4096, (c.copyPiece img noCopy x n).workingBuf i =
      if i < x % 4096 + n then bytes (x / 4096 * 4096 + i) else 0 := by
  intro i hi
  have hold := h.buf i hi
  simp only [Copying.copyPiece]
  by_cases hlow : i < x % 4096
  · rw [if_neg (by omega), hold, if_pos hlow, if_pos (by omega)]
  · rw [if_neg hlow] at hold
    by_cases hhigh : i < x % 4096 + n
    · have hbyte := hbytes (i - x % 4096) (by omega)
      rw [show x + (i - x % 4096) = x / 4096 * 4096 + i by omega] at hbyte
      rw [if_pos hhigh, hbyte, hold]
      cases noCopy with
      | true => simp
      | false => rw [if_pos ⟨rfl, by omega, hhigh⟩, if_neg (by simp)]
    · rw [if_neg (by omega), hold, if_neg hhigh]

/-- What copying the bytes from one address to another leaves. -/
structure Copied (bytes : Memory) (pid : Nat) (b : Int) (x n : Nat) (c c' : Copying) : Prop where
  working : Working bytes b (x + n) c'
  stored : ∀ v : Nat, x / 4096 ≤ v → v < (x + n) / 4096 → Stored bytes pid c'.swap (b + v) v
  frame : ∀ k < b + (x / 4096 : Nat), c'.swap k = c.swap k
  src : c'.srcSwapImgAddr = c.srcSwapImgAddr + n

theorem Stored.of_eq {swap swap' : Int → Option Slot} {k : Int} (h : Stored bytes pid swap k v)
    (heq : swap' k = swap k) : Stored bytes pid swap' k v := by simpa only [Stored, heq] using h

theorem Copied.trans {n' : Nat} {c' c'' : Copying} (h : Copied bytes pid b x n c c')
    (h' : Copied bytes pid b (x + n) n' c' c'') : Copied bytes pid b x (n + n') c c'' where
  working := by rw [← Nat.add_assoc]; exact h'.working
  stored := by
    intro v hlow hhigh
    by_cases hv : v < (x + n) / 4096
    · exact (h.stored v hlow hv).of_eq (h'.frame _ (by omega))
    · exact h'.stored v (by omega) (by omega)
  frame := by
    intro k hk
    rw [h'.frame k (by omega), h.frame k hk]
  src := by rw [h'.src, h.src, Nat.add_assoc]

theorem copied_copyRound (h : Working bytes b x c) (hpos : 0 < n) (hn : x % 4096 + n ≤ 4096)
    (hbytes : ∀ i < n, bytes (x + i) = if noCopy then 0 else img (c.srcSwapImgAddr + i)) :
    Copied bytes pid b x n c (c.copyRound img pid noCopy x n) := by
  have hbuf := copyPiece_buf h hbytes
  have hpage : (c.copyPiece img noCopy x n).workingPage = some (b + (x / 4096 : Nat)) := h.page
  rw [Copying.copyRound]
  split_ifs with hfull
  · -- the piece ends with the page, which is written
    have hvpage : (x + n - 4096) / 4096 = x / 4096 := by omega
    have hnext : (x + n) / 4096 = x / 4096 + 1 := by omega
    rw [hvpage]
    have hwhole : ∀ i < 4096, (c.copyPiece img noCopy x n).workingBuf i = bytes (x / 4096 * 4096 + i) := by
      intro i hi
      rw [hbuf i hi, if_pos (by omega)]
    refine ⟨working_takePage ?_ (fun a _ _ => by omega), fun v hlow hhigh => ?_, fun k hk => ?_, ?_⟩
    · rw [encryptSwapTo_eq hpage, hnext]
      show c.swapFreePage = _
      rw [h.free]
      omega
    · obtain rfl : v = x / 4096 := by omega
      exact stored_encryptSwapTo hpage hwhole
    · exact encryptSwapTo_swap_of_ne hpage (by omega)
    · rw [encryptSwapTo_eq hpage]
      rfl
  · have hsame : (x + n) / 4096 = x / 4096 := by omega
    refine ⟨⟨by rw [hsame]; exact hpage, by rw [hsame]; exact h.free, fun i hi => ?_⟩,
      fun v hlow hhigh => by omega, fun k _ => rfl, rfl⟩
    rw [hbuf i hi, hsame, show (x + n) % 4096 = x % 4096 + n by omega]

theorem copyRound_dirty (noCopy : Bool) (n : Nat) :
    (c.copyRound img pid noCopy x n).dirty = decide ((x + n) % 4096 ≠ 0) := by
  rw [Copying.copyRound]
  split_ifs with hfull
  · simp [Copying.takePage, hfull]
  · simp [Copying.copyPiece, hfull]

theorem copyBytes_spec (pid : Nat) (h : Working bytes b x c)
    (hbytes : ∀ i < n, bytes (x + i) = if noCopy then 0 else img (c.srcSwapImgAddr + i)) :
    Copied bytes pid b x n c (c.copyBytes img pid noCopy n x) ∧ (c.copyBytes img pid noCopy n x).lastCopyVaddr = x + n ∧
      (c.copyBytes img pid noCopy n x).dirty = if n = 0 then c.dirty else decide ((x + n) % 4096 ≠ 0) := by
  induction n using Nat.strong_induction_on generalizing x c with
  | _ n ih =>
    by_cases hn : n = 0
    · subst hn
      rw [Copying.copyBytes, if_pos rfl, if_pos rfl]
      exact ⟨⟨⟨h.page, h.free, h.buf⟩, fun v hlow hhigh => by omega, fun k _ => rfl, rfl⟩, rfl, rfl⟩
    obtain ⟨hpos, hle, hpage⟩ : 0 < c.copyable n x ∧ c.copyable n x ≤ n ∧ x % 4096 + c.copyable n x ≤ 4096 := by
      simp only [Copying.copyable, remainingInPage]
      omega
    rw [Copying.copyBytes, if_neg hn, if_neg hn]
    dsimp only
    generalize c.copyable n x = k at hpos hle hpage ⊢
    have hround : Copied bytes pid b x k c (c.copyRound img pid noCopy x k) :=
      copied_copyRound h hpos hpage fun i hi => hbytes i (by omega)
    obtain ⟨hcopied, hlast, hdirty⟩ := ih (n - k) (by omega) hround.working (by
      intro i hi
      rw [Nat.add_assoc, hbytes (k + i) (by omega), hround.src, Nat.add_assoc])
    have htotal : k + (n - k) = n := by omega
    refine ⟨by have := hround.trans hcopied; rwa [htotal] at this, by rw [hlast]; omega, ?_⟩
    rw [hdirty, copyRound_dirty]
    split_ifs with hrest
    · rw [show k = n by omega]
    · rw [Nat.add_assoc, htotal]

/-- The difference for a section that starts at `y`, after a copy up to `x`. -/
def rebase (b : Int) (x y : Nat) : Int :=
  if y / 4096 ≤ x / 4096 + 1 then b else b + (x / 4096 : Nat) + 1 - (y / 4096 : Nat)

theorem rebase_eq_iff (b : Int) (x y : Nat) : rebase b x y = b ↔ y / 4096 ≤ x / 4096 + 1 := by
  simp only [rebase]
  split_ifs <;> omega

variable {s : MiniElfSection}

theorem startSection_spec (pid : Nat) (h : Working bytes b x c) (hlast : c.lastCopyVaddr = x)
    (hle : x ≤ s.virt) (hzero : ∀ a, x ≤ a → a < s.virt → bytes a = 0) :
    Working bytes (rebase b x s.virt) s.virt (c.startSection pid s) ∧
      (∀ v : Nat, x / 4096 ≤ v → v < s.virt / 4096 → rebase b x s.virt = b →
        Stored bytes pid (c.startSection pid s).swap (b + v) v) ∧
      (∀ k < b + (x / 4096 : Nat), (c.startSection pid s).swap k = c.swap k) ∧
      (c.startSection pid s).srcSwapImgAddr = c.srcSwapImgAddr := by
  by_cases hpage : x / 4096 = s.virt / 4096
  · have hstart : c.startSection pid s = c := by simp [Copying.startSection, h.page, hlast, hpage]
    rw [rebase, if_pos (by omega), hstart]
    exact ⟨h.forward hle hpage.symm hzero, fun v hlow hhigh => by omega, fun k _ => rfl, rfl⟩
  · have hstart : c.startSection pid s = (c.encryptSwapTo pid (x / 4096)).takePage := by
      simp [Copying.startSection, h.page, hlast, hpage]
    rw [hstart]
    have hwhole : ∀ i < 4096, c.workingBuf i = bytes (x / 4096 * 4096 + i) :=
      h.whole fun a ha hp => hzero a ha (by omega)
    refine ⟨working_takePage ?_ (fun a hp ha => hzero a (by omega) ha), fun v hlow hhigh hb => ?_, fun k hk => ?_, ?_⟩
    · rw [encryptSwapTo_eq h.page]
      show c.swapFreePage = _
      rw [h.free, rebase]
      split_ifs <;> omega
    · rw [rebase_eq_iff] at hb
      obtain rfl : v = x / 4096 := by omega
      exact stored_encryptSwapTo h.page hwhole
    · exact encryptSwapTo_swap_of_ne h.page (by omega)
    · rw [encryptSwapTo_eq h.page]
      rfl

structure AfterSection (bytes : Memory) (b : Int) (x : Nat) (c : Copying) : Prop where
  working : Working bytes b x c
  last : c.lastCopyVaddr = x
  dirty : c.dirty = decide (x % 4096 ≠ 0)

/-- The sections after the first. The difference stays if no page is left out, and falls otherwise. -/
structure SectionsCopied (bytes : Memory) (pid : Nat) (b b' : Int) (x y : Nat) (c c' : Copying) : Prop where
  after : AfterSection bytes b' y c'
  le : b' ≤ b
  mono : x ≤ y
  stored : b' = b → ∀ v : Nat, x / 4096 ≤ v → v < y / 4096 → Stored bytes pid c'.swap (b + v) v
  frame : b' = b → ∀ k < b + (x / 4096 : Nat), c'.swap k = c.swap k

theorem SectionsCopied.trans {b' b'' : Int} {z : Nat} {c' c'' : Copying}
    (h : SectionsCopied bytes pid b b' x y c c') (h' : SectionsCopied bytes pid b' b'' y z c' c'') :
    SectionsCopied bytes pid b b'' x z c c'' where
  after := h'.after
  le := h'.le.trans h.le
  mono := h.mono.trans h'.mono
  stored := by
    intro hb v hlow hhigh
    obtain rfl : b' = b := le_antisymm h.le (hb ▸ h'.le)
    by_cases hv : v < y / 4096
    · exact (h.stored rfl v hlow hv).of_eq (h'.frame hb _ (by omega))
    · exact h'.stored hb v (by omega) hhigh
  frame := by
    intro hb k hk
    obtain rfl : b' = b := le_antisymm h.le (hb ▸ h'.le)
    have := h.mono
    rw [h'.frame hb k (by omega), h.frame rfl k hk]

variable {rest : List MiniElfSection}

theorem byteAt_section {i : Nat} (hi : i < s.len) :
    byteAt img src (s :: rest) (s.virt + i) = if s.noCopy then 0 else img (src + i) := by
  rw [byteAt, if_pos (by omega), Nat.add_sub_cancel_left]

theorem byteAt_behind {a : Nat}
    (ha : s.virt + s.len ≤ a) : byteAt img src (s :: rest) a = byteAt img (src + s.len) rest a := by
  rw [byteAt, if_neg (by omega)]

theorem copySection_spec (pid : Nat) (h : AfterSection bytes b x c)
    (hord : Ordered x (s :: rest)) (hbytes : ∀ a, x ≤ a → bytes a = byteAt img c.srcSwapImgAddr (s :: rest) a) :
    SectionsCopied bytes pid b (rebase b x s.virt) x (s.virt + s.len) c
        ((c.startSection pid s).copyBytes img pid s.noCopy s.len s.virt) ∧
      ((c.startSection pid s).copyBytes img pid s.noCopy s.len s.virt).srcSwapImgAddr = c.srcSwapImgAddr + s.len := by
  obtain ⟨hle, hlen, hrest⟩ := hord
  obtain ⟨hwork, hstored, hframe, hsrc⟩ := startSection_spec pid h.working h.last hle (by
      intro a hx ha
      rw [hbytes a hx]
      exact byteAt_before ⟨le_refl _, hlen, hrest⟩ ha)
  obtain ⟨hcopied, hlast, hdirty⟩ := copyBytes_spec pid hwork (by
      intro i hi
      rw [hbytes _ (by omega), byteAt_section hi, hsrc])
  rw [if_neg (by omega)] at hdirty
  refine ⟨⟨⟨hcopied.working, hlast, hdirty⟩, ?_, by omega, fun hb v hlow hhigh => ?_,
    fun hb k hk => ?_⟩, by rw [hcopied.src, hsrc]⟩
  · rw [rebase]
    split_ifs <;> omega
  · by_cases hv : v < s.virt / 4096
    · exact (hstored v hlow hv hb).of_eq (hcopied.frame _ (by omega))
    · have := hcopied.stored v (by omega) hhigh
      rwa [hb] at this
  · rw [hcopied.frame k (by omega), hframe k hk]

theorem copySections_spec (pid : Nat) (sections : List MiniElfSection) (h : AfterSection bytes b x c)
    (hord : Ordered x sections) (hbytes : ∀ a, x ≤ a → bytes a = byteAt img c.srcSwapImgAddr sections a) :
    ∃ b', SectionsCopied bytes pid b b' x (endOf x sections) c (c.copySections img pid sections) ∧
      (b' = b ↔ Tight x sections) := by
  induction sections generalizing b x c with
  | nil =>
    exact ⟨b, ⟨h, le_refl _, le_refl _, fun _ v hlow hhigh => absurd hlow (by simpa [endOf] using hhigh),
      fun _ k _ => rfl⟩, by simp [Tight]⟩
  | cons s rest ih =>
    obtain ⟨hone, hsrc⟩ := copySection_spec pid h hord hbytes
    obtain ⟨b', hmore, htight⟩ := ih hone.after hord.2.2 (by
      intro a ha
      have := hord.1
      rw [hbytes a (by omega), byteAt_behind ha, hsrc])
    refine ⟨b', hone.trans hmore, ?_⟩
    rw [Tight, ← htight, ← rebase_eq_iff b x s.virt]
    have := hmore.le
    have := hone.le
    constructor
    · intro hb
      constructor <;> omega
    · rintro ⟨hb, hb'⟩
      omega

end Placement

def lastPage (rest : List MiniElfSection) : Nat := (endOf (s.virt + s.len) rest - 1) / 4096

/-- What phase 1 leaves for a program: its pages behind those taken before, by one difference if no
page is left out, otherwise fewer of them. -/
structure ProcessCopied (inis : MiniElf) (first last : Nat) (st' : Phase1) : Prop where
  pid : st'.pid = st.pid + 1
  free_le : st'.swapFreePage ≤ st.swapFreePage - first + last + 1
  stored : st'.swapFreePage = st.swapFreePage - first + last + 1 → ∀ v, first ≤ v → v ≤ last →
    Stored (byteAt img inis.loadOffset inis.sections) st'.pid st'.swap (st.swapFreePage - first + v) v
  frame : st'.swapFreePage = st.swapFreePage - first + last + 1 → ∀ k < st.swapFreePage, st'.swap k = st.swap k

variable {x : Nat}

section Programs

variable {img : Memory} {s : MiniElfSection} {rest : List MiniElfSection}

theorem le_endOf {sections : List MiniElfSection} (h : Ordered x sections) : x ≤ endOf x sections := by
  induction sections generalizing x with
  | nil => exact le_refl _
  | cons s rest ih =>
    have := ih h.2.2
    have := h.1
    show x ≤ endOf (s.virt + s.len) rest
    omega

theorem copyFirst_spec (img : Memory) (st : Phase1) (src : Nat) (hord : Ordered 0 (s :: rest)) :
    let bytes := byteAt img src (s :: rest)
    let b := st.swapFreePage - (s.virt / 4096 : Nat)
    let c := (((st.copying ⟨src, s :: rest⟩).startSection (st.pid + 1) s).copyBytes img (st.pid + 1) s.noCopy
      s.len s.virt)
    AfterSection bytes b (s.virt + s.len) c ∧
      Copied bytes (st.pid + 1) b s.virt s.len (st.copying ⟨src, s :: rest⟩).takePage c := by
  obtain ⟨-, hlen, hrest⟩ := hord
  have hwork : Working (byteAt img src (s :: rest)) (st.swapFreePage - (s.virt / 4096 : Nat)) s.virt
      (st.copying ⟨src, s :: rest⟩).takePage := by
    refine working_takePage ?_ fun a _ ha => byteAt_before ⟨le_refl _, hlen, hrest⟩ ha
    show st.swapFreePage = _
    omega
  obtain ⟨hcopied, hlast, hdirty⟩ := copyBytes_spec (st.pid + 1) hwork fun i hi => byteAt_section hi
  rw [if_neg (by omega)] at hdirty
  exact ⟨⟨hcopied.working, hlast, hdirty⟩, hcopied⟩

theorem flush_spec {bytes : Memory} (pid : Nat) {b : Int} {y : Nat} {c : Copying} (hy : 0 < y)
    (h : AfterSection bytes b y c) (hzero : ∀ a, y ≤ a → bytes a = 0) :
    (c.flush pid).swapFreePage = b + ((y - 1) / 4096 : Nat) + 1 ∧
      (y % 4096 ≠ 0 → Stored bytes pid (c.flush pid).swap (b + (y / 4096 : Nat)) (y / 4096)) ∧
      ∀ k < b + (y / 4096 : Nat), (c.flush pid).swap k = c.swap k := by
  have hfree := h.working.free
  rw [Copying.flush, h.dirty, h.last]
  by_cases hfull : y % 4096 = 0
  · rw [if_neg (by simp [hfull])]
    exact ⟨by show c.swapFreePage - 1 = _; omega, fun hne => absurd hfull hne, fun k _ => rfl⟩
  · rw [if_pos (by simp [hfull])]
    refine ⟨?_, fun _ => stored_encryptSwapTo h.working.page (h.working.whole fun a ha _ => hzero a ha),
      fun k hk => encryptSwapTo_swap_of_ne h.working.page (by omega)⟩
    rw [encryptSwapTo_eq h.working.page]
    show c.swapFreePage = _
    omega

theorem byteAt_after {src x a : Nat} (h : Ordered x sections)
    (ha : endOf x sections ≤ a) : byteAt img src sections a = 0 := by
  induction sections generalizing src x with
  | nil => rfl
  | cons s rest ih =>
    have := le_endOf h.2.2
    rw [byteAt_behind (by simp only [endOf] at ha; omega)]
    exact ih h.2.2 ha

theorem processCopied (img : Memory) (st : Phase1) (src : Nat) (hord : Ordered 0 (s :: rest)) :
    ProcessCopied img st ⟨src, s :: rest⟩ (s.virt / 4096) (lastPage s rest)
        (copyProcess img st (.iniS ⟨src, s :: rest⟩)) ∧
      ((copyProcess img st (.iniS ⟨src, s :: rest⟩)).swapFreePage =
          st.swapFreePage - (s.virt / 4096 : Nat) + lastPage s rest + 1 ↔ Tight (s.virt + s.len) rest) := by
  obtain ⟨hafter, hfirst⟩ := copyFirst_spec img st src hord
  obtain ⟨b', hmore, htight⟩ := copySections_spec (st.pid + 1) rest hafter hord.2.2 (by
    intro a ha
    rw [hfirst.src, byteAt_behind ha]
    rfl)
  have hlen := hord.2.1
  have hend := le_endOf hord.2.2
  obtain ⟨hfree, hlastStored, hflush⟩ := flush_spec (st.pid + 1) (by omega) hmore.after
    fun a ha => byteAt_after hord ha
  have hle := hmore.le
  have hlast : (lastPage s rest : Int) = ((endOf (s.virt + s.len) rest - 1) / 4096 : Nat) := rfl
  have hkeeps : (copyProcess img st (.iniS ⟨src, s :: rest⟩)).swapFreePage =
      st.swapFreePage - (s.virt / 4096 : Nat) + lastPage s rest + 1 ↔ b' = st.swapFreePage - (s.virt / 4096 : Nat) := by
    rw [hlast]
    exact ⟨fun h => by have := hfree.symm.trans h; omega, fun h => hfree.trans (by rw [h])⟩
  refine ⟨⟨rfl, ?_, fun hfull v hlow hhigh => ?_, fun hfull k hk => ?_⟩, hkeeps.trans htight⟩
  · rw [hlast]
    exact hfree.le.trans (by omega)
  · have hb := hkeeps.mp hfull
    rw [hb] at hlastStored hflush
    rw [lastPage] at hhigh
    by_cases hv : v < endOf (s.virt + s.len) rest / 4096
    · refine Stored.of_eq ?_ (hflush _ (by omega))
      by_cases hmid : v < (s.virt + s.len) / 4096
      · exact (hfirst.stored v hlow hmid).of_eq (hmore.frame hb _ (by omega))
      · exact hmore.stored hb v (by omega) hv
    · obtain rfl : v = endOf (s.virt + s.len) rest / 4096 := by omega
      exact hlastStored (by omega)
  · have hb := hkeeps.mp hfull
    rw [hb] at hflush
    refine (hflush k (by omega)).trans ((hmore.frame hb k (by omega)).trans ?_)
    exact hfirst.frame k (by omega)

end Programs

section Mapping

variable {pid : Nat} {u : Int} {m m' : Loading} {s : MiniElfSection}

theorem pagesToMap_eq (hlen : 0 < s.len) : s.virt / 4096 + pagesToMap s = (s.virt + s.len - 1) / 4096 + 1 := by
  simp only [pagesToMap]
  split_ifs <;> omega

/-- The counter stands at the swap page of the page to map next, when the gap is passed over. -/
def Next (u : Int) (v : Nat) (m : Loading) : Prop :=
  (m.lastMapped = 0 ∧ m.lastSwapPage = u + v) ∨
    (m.lastMapped ≠ 0 ∧ m.lastMapped < v ∧ m.lastSwapPage = u + m.lastMapped + 1)

variable {v : Nat}

theorem skipGap_eq (h : Next u v m) : m.skipGap v = { m with lastSwapPage := u + v } := by
  rcases h with ⟨hlast, hused⟩ | ⟨hlast, hlt, hused⟩
  · rw [skipGap, if_neg (by simp [hlast]), ← hused]
  · rw [skipGap]
    split_ifs with hgap
    · rw [hused, show u + (m.lastMapped : Int) + 1 + ((v - m.lastMapped - 1 : Nat) : Int) = u + v by omega]
    · rw [show u + (v : Int) = m.lastSwapPage by omega]

def mapRange (tables : SwapTables) (pid : Nat) (u : Int) (v n : Nat) : SwapTables := fun p a =>
  if p = pid ∧ v ≤ a ∧ a < v + n then some (u + a) else tables p a

variable {n : Nat}

theorem mapRange_of_mem {tables : SwapTables} {a : Nat} (hlow : v ≤ a) (hhigh : a < v + n) :
    mapRange tables pid u v n pid a = some (u + a) := if_pos ⟨rfl, hlow, hhigh⟩

theorem mapPages_eq (hv : 0 < v) (h : Next u v m) (hnone : ∀ a, v ≤ a → m.tables pid a = none) :
    m.mapPages pid (n + 1) v = some ⟨mapRange m.tables pid u v (n + 1), u + v + n + 1, v + n, m.previousAddr⟩ := by
  induction n generalizing v m with
  | zero =>
    rw [mapPages, skipGap_eq h, mapSwap, if_neg (by simp [hnone v (le_refl _)])]
    simp only [Option.bind_eq_bind, Option.bind_some, mapPages, Option.some.injEq,
      mk.injEq, Nat.add_zero, Int.natCast_zero, Int.add_zero, and_true]
    funext p a
    simp only [mapRange]
    split_ifs <;> grind
  | succ n ih =>
    rw [mapPages, skipGap_eq h, mapSwap, if_neg (by simp [hnone v (le_refl _)])]
    simp only [Option.bind_eq_bind, Option.bind_some]
    rw [ih (by omega) (Or.inr ⟨by show v ≠ 0; omega, Nat.lt_succ_self v, by simp⟩)]
    · simp only [Option.some.injEq, mk.injEq, and_true]
      refine ⟨?_, by push_cast; omega, by omega⟩
      funext p a
      simp only [mapRange]
      split_ifs <;> grind
    · intro a ha
      show (if pid = pid ∧ a = v then _ else m.tables pid a) = none
      rw [if_neg (by omega)]
      exact hnone a (by omega)

/-- Phase 2 after a section that ends at `x`: the page of the last byte is the one mapped last. -/
structure Mapped (u : Int) (pid x : Nat) (m : Loading) : Prop where
  last : m.lastMapped = (x - 1) / 4096
  used : m.lastSwapPage = u + m.lastMapped + 1
  previous : m.previousAddr = x
  top : m.tables pid m.lastMapped = some (u + m.lastMapped)
  above : ∀ v, m.lastMapped < v → m.tables pid v = none

/-- What mapping sections from page `v` on does to the tables. -/
structure Extends (u : Int) (pid v : Nat) (m m' : Loading) : Prop where
  others : ∀ p, p ≠ pid → m'.tables p = m.tables p
  below : ∀ a, a < v → m'.tables pid a = m.tables pid a
  kept : ∀ a k, m.tables pid a = some k → m'.tables pid a = some k
  entries : ∀ a k, m'.tables pid a = some k → m.tables pid a = some k ∨ v ≤ a ∧ k = u + a

theorem Extends.trans {w : Nat} {m'' : Loading} (hvw : v ≤ w) (h : Extends u pid v m m')
    (h' : Extends u pid w m' m'') : Extends u pid v m m'' where
  others p hp := (h'.others p hp).trans (h.others p hp)
  below a ha := (h'.below a (by omega)).trans (h.below a ha)
  kept a k ha := h'.kept a k (h.kept a k ha)
  entries a k ha := by
    rcases h'.entries a k ha with hold | ⟨hle, hk⟩
    · exact h.entries a k hold
    · exact Or.inr ⟨by omega, hk⟩

theorem Extends.refl (u : Int) (pid v : Nat) (m : Loading) : Extends u pid v m m :=
  ⟨fun _ _ => rfl, fun _ _ => rfl, fun _ _ h => h, fun _ _ h => Or.inl h⟩

theorem extends_mapRange {w x : Nat} (hw : w ≤ v) (habove : ∀ a, v ≤ a → m.tables pid a = none)
    (used : Int) (last : Nat) : Extends u pid w m ⟨mapRange m.tables pid u v n, used, last, x⟩ where
  others p hp := by
    funext a
    simp [mapRange, hp]
  below a ha := by simp [mapRange, show ¬ v ≤ a by omega]
  kept a k ha := by
    have hlt : ¬ v ≤ a := fun hle => by simp [habove a hle] at ha
    simpa [mapRange, hlt] using ha
  entries a k ha := by
    simp only [mapRange] at ha
    split_ifs at ha with hin
    · exact Or.inr ⟨by omega, (Option.some.inj ha).symm⟩
    · exact Or.inl ha

theorem mapped_mapRange (hlast : v + n = (x - 1) / 4096) (habove : ∀ a, v ≤ a → m.tables pid a = none) :
    Mapped u pid x ⟨mapRange m.tables pid u v (n + 1), u + v + n + 1, v + n, x⟩ where
  last := hlast
  used := by simp [Int.add_assoc]
  previous := rfl
  top := by simp [mapRange]
  above a ha := by
    have ha' : v + n < a := ha
    simp only [mapRange]
    rw [if_neg (by omega)]
    exact habove a (by omega)

/-- One section: its pages are mapped by the difference that the counter has, whatever the gap before it. -/
theorem loadSection_spec (hprev : m.previousAddr ≤ s.virt) (hlen : 0 < s.len) (hv : 0 < s.virt / 4096)
    (hle : m.lastMapped ≤ s.virt / 4096) (hnext : m.lastMapped ≠ s.virt / 4096 → Next u (s.virt / 4096) m)
    (htop : m.lastMapped = s.virt / 4096 →
      m.tables pid m.lastMapped = some (u + m.lastMapped) ∧ m.lastSwapPage = u + m.lastMapped + 1)
    (habove : ∀ v, m.lastMapped < v → m.tables pid v = none) :
    ∃ m', m.loadSection pid s = some m' ∧ Mapped u pid (s.virt + s.len) m' ∧ Extends u pid (s.virt / 4096) m m' ∧
      ∀ a, s.virt / 4096 ≤ a → a ≤ (s.virt + s.len - 1) / 4096 → m'.tables pid a = some (u + a) := by
  have hpages := pagesToMap_eq hlen
  rw [loadSection, if_neg (by omega)]
  by_cases hskip : m.lastMapped = s.virt / 4096
  · -- the first page is there already
    obtain ⟨hentry, hused⟩ := htop hskip
    have hnone : ∀ a, s.virt / 4096 + 1 ≤ a → m.tables pid a = none := fun a ha => habove a (by omega)
    rw [if_pos hskip]
    dsimp only
    obtain hone | ⟨n, hn⟩ : pagesToMap s - 1 = 0 ∨ ∃ n, pagesToMap s - 1 = n + 1 := by
      cases pagesToMap s - 1 <;> simp
    · rw [hone]
      refine ⟨{ m with previousAddr := s.virt + s.len }, rfl,
        ⟨by show m.lastMapped = _; omega, hused, rfl, hentry, habove⟩, ⟨fun _ _ => rfl, fun _ _ => rfl,
          fun _ _ h => h, fun _ _ h => Or.inl h⟩, fun a hlow hhigh => ?_⟩
      obtain rfl : a = m.lastMapped := by omega
      exact hentry
    · rw [hn, mapPages_eq (by omega) (Or.inr ⟨by omega, by omega, hused⟩) hnone]
      refine ⟨_, rfl, mapped_mapRange (by omega) hnone, extends_mapRange (by omega) hnone _ _,
        fun a hlow hhigh => ?_⟩
      by_cases hin : s.virt / 4096 + 1 ≤ a
      · exact mapRange_of_mem hin (by omega)
      · obtain rfl : a = m.lastMapped := by omega
        exact (if_neg (by omega)).trans hentry
  · have hnone : ∀ a, s.virt / 4096 ≤ a → m.tables pid a = none := fun a ha => habove a (by omega)
    obtain ⟨n, hn⟩ : ∃ n, pagesToMap s = n + 1 := ⟨pagesToMap s - 1, by omega⟩
    rw [if_neg hskip]
    dsimp only
    rw [Nat.sub_zero, Nat.add_zero, hn, mapPages_eq hv (hnext hskip) hnone]
    refine ⟨_, rfl, mapped_mapRange (by omega) hnone, extends_mapRange (le_refl _) hnone _ _,
      fun a hlow hhigh => mapRange_of_mem hlow (by omega)⟩

def Reached (u : Int) (pid : Nat) (sections : List MiniElfSection) (m : Loading) : Prop :=
  ∀ s ∈ sections, ∀ a, s.virt ≤ a → a < s.virt + s.len → m.tables pid (a / 4096) = some (u + (a / 4096 : Nat))

theorem loadSections_spec (sections : List MiniElfSection) (hx : 4096 < x) (h : Mapped u pid x m)
    (hord : Ordered x sections) :
    ∃ m', m.loadSections pid sections = some m' ∧ Mapped u pid (endOf x sections) m' ∧
      Extends u pid ((x - 1) / 4096) m m' ∧ Reached u pid sections m' := by
  induction sections generalizing x m with
  | nil => exact ⟨m, rfl, h, Extends.refl .., by simp [Reached]⟩
  | cons s rest ih =>
    obtain ⟨hle, hlen, hrest⟩ := hord
    have hlast := h.last
    have hused := h.used
    obtain ⟨m1, heq, hmapped, hext, hpages⟩ := loadSection_spec (by rw [h.previous]; exact hle) hlen (by omega)
      (by omega) (fun hne => Or.inr ⟨by omega, by omega, hused⟩) (fun _ => ⟨h.top, hused⟩) h.above
    obtain ⟨m2, heq', hmapped', hext', hreached⟩ := ih (by omega) hmapped hrest
    refine ⟨m2, by rw [loadSections, heq, Option.bind_some, heq'], hmapped',
      ((Extends.refl ..).trans (by omega) hext).trans (by omega) hext', ?_⟩
    intro s' hs'
    rcases List.mem_cons.mp hs' with rfl | hs'
    · intro a hlow hhigh
      exact hext'.kept _ _ (hpages _ (by omega) (by omega))
    · exact hreached s' hs'

theorem loadProgram_spec {rest : List MiniElfSection} (st : Phase2) (hord : Ordered 0 (s :: rest))
    (hvirt : 4096 ≤ s.virt) (hnone : ∀ v, st.tables st.pid v = none) :
    ∃ m, st.loading.loadSections st.pid (s :: rest) = some m ∧
      m.lastSwapPage = st.lastSwapPage - (s.virt / 4096 : Nat) + lastPage s rest + 1 ∧
      (∀ p, p ≠ st.pid → m.tables p = st.tables p) ∧
      (∀ a k, m.tables st.pid a = some k → s.virt / 4096 ≤ a ∧ a ≤ lastPage s rest ∧
        k = st.lastSwapPage - (s.virt / 4096 : Nat) + a) ∧
      Reached (st.lastSwapPage - (s.virt / 4096 : Nat)) st.pid (s :: rest) m := by
  obtain ⟨-, hlen, hrest⟩ := hord
  have hfresh : Next (st.lastSwapPage - (s.virt / 4096 : Nat)) (s.virt / 4096) st.loading :=
    Or.inl ⟨rfl, by show st.lastSwapPage = _; omega⟩
  have hzero : st.loading.lastMapped = 0 := rfl
  have habove : ∀ v, st.loading.lastMapped < v → st.loading.tables st.pid v = none := fun v _ => hnone v
  obtain ⟨m1, heq, hmapped, hext, hpages⟩ := loadSection_spec (Nat.zero_le _) hlen (by omega) (by omega)
    (fun _ => hfresh) (fun h => by omega) habove
  obtain ⟨m, heq', hmapped', hext', hreached⟩ := loadSections_spec rest (by omega) hmapped hrest
  refine ⟨m, by rw [loadSections, heq, Option.bind_some, heq'], by rw [hmapped'.used, hmapped'.last]; rfl,
    fun p hp => (hext'.others p hp).trans (hext.others p hp), fun a k hk => ?_, fun s' hs' => ?_⟩
  · have htop : a ≤ m.lastMapped := by
      by_contra hgt
      simp [hmapped'.above a (by omega)] at hk
    rw [hmapped'.last] at htop
    rcases (hext.trans (by omega) hext').entries a k hk with hold | ⟨hlow, hk⟩
    · simp [show st.loading.tables st.pid a = none from hnone a] at hold
    · exact ⟨hlow, htop, hk⟩
  · rcases List.mem_cons.mp hs' with rfl | hs'
    · intro a hlow hhigh
      exact hext'.kept _ _ (hpages _ (by omega) (by omega))
    · exact hreached s' hs'

/-- The page at zero looks as if it were mapped already, before any page is. -/
structure Low (m : Loading) : Prop where
  zero : ∀ p, m.tables p 0 = none
  last : m.lastMapped * 4096 ≤ m.previousAddr

theorem mapPages_low (hv : 0 < v) (h : m.mapPages pid n v = some m') :
    (∀ p, m'.tables p 0 = m.tables p 0) ∧ m'.previousAddr = m.previousAddr ∧
      (n = 0 ∧ m'.lastMapped = m.lastMapped ∨ m'.lastMapped + 1 = v + n) := by
  induction n generalizing v m with
  | zero =>
    obtain rfl := Option.some.inj h
    exact ⟨fun _ => rfl, rfl, Or.inl ⟨rfl, rfl⟩⟩
  | succ n ih =>
    rw [mapPages] at h
    obtain ⟨m1, hmap, hrest⟩ := Option.bind_eq_some_iff.mp h
    obtain ⟨htables, hprev, hlast⟩ := ih (Nat.succ_pos v) hrest
    rw [mapSwap] at hmap
    split_ifs at hmap
    obtain rfl := Option.some.inj hmap
    have hskip : (m.skipGap v).tables = m.tables ∧ (m.skipGap v).previousAddr = m.previousAddr := by
      rw [skipGap]
      split_ifs <;> exact ⟨rfl, rfl⟩
    refine ⟨fun p => ?_, hprev.trans hskip.2, Or.inr ?_⟩
    · rw [htables p]
      show (if p = pid ∧ 0 = v then _ else (m.skipGap v).tables p 0) = _
      rw [if_neg (by omega), hskip.1]
    · rcases hlast with ⟨rfl, hlast⟩ | hlast
      · rw [hlast]
      · omega

theorem loadSection_low (h : Low m) (heq : m.loadSection pid s = some m') : Low m' := by
  rw [loadSection] at heq
  by_cases hbad : s.virt < m.previousAddr ∨ s.len = 0
  · rw [if_pos hbad] at heq
    exact absurd heq (by simp)
  rw [if_neg hbad] at heq
  have hpages := pagesToMap_eq (s := s) (by omega)
  have hlast := h.last
  obtain ⟨m1, hmap, rfl⟩ := Option.map_eq_some_iff.mp heq
  have hv : 0 < s.virt / 4096 + if m.lastMapped = s.virt / 4096 then 1 else 0 := by
    split_ifs <;> omega
  obtain ⟨hzero, hprev, hmapped⟩ := mapPages_low hv hmap
  refine ⟨fun p => (hzero p).trans (h.zero p), ?_⟩
  have hle : m1.lastMapped ≤ (s.virt + s.len - 1) / 4096 := by
    clear heq hmap hzero
    split_ifs at hmapped hv <;> omega
  calc m1.lastMapped * 4096 ≤ (s.virt + s.len - 1) / 4096 * 4096 := Nat.mul_le_mul_right _ hle
    _ ≤ s.virt + s.len - 1 := Nat.div_mul_le_self ..
    _ ≤ s.virt + s.len := Nat.sub_le ..

theorem loadSections_low (h : Low m)
    (heq : m.loadSections pid sections = some m') : Low m' := by
  induction sections generalizing m with
  | nil =>
    obtain rfl := Option.some.inj heq
    exact h
  | cons s rest ih =>
    obtain ⟨m1, hone, hrest⟩ := Option.bind_eq_some_iff.mp heq
    exact ih (loadSection_low h hone) hrest

end Mapping

variable {st st' : Phase2}

theorem loadProcess_low {arg : KernelArgument} (h : ∀ p, st.tables p 0 = none)
    (heq : loadProcess st arg = some st') : ∀ p, st'.tables p 0 = none := by
  cases arg with
  | iniE | iniF | other =>
    obtain rfl := Option.some.inj heq
    exact h
  | iniS inis =>
    obtain ⟨m, hload, rfl⟩ := Option.map_eq_some_iff.mp heq
    have hlow : Low st.loading := ⟨h, by simp [Phase2.loading]⟩
    exact (loadSections_low hlow hload).zero

variable {args : List KernelArgument}

theorem loadProcesses_low (h : ∀ p, st.tables p 0 = none)
    (heq : loadProcesses args st = some st') : ∀ p, st'.tables p 0 = none := by
  induction args generalizing st with
  | nil =>
    obtain rfl := Option.some.inj heq
    exact h
  | cons arg rest ih =>
    obtain ⟨st1, hone, hrest⟩ := Option.bind_eq_some_iff.mp heq
    exact ih (loadProcess_low h hone) hrest

def Rooted : List MiniElfSection → Prop
  | [] => True
  | s :: _ => 4096 ≤ s.virt

variable {img : Memory}

theorem rooted_of_pagesFound {p : Nat × MiniElf}
    {swap : Int → Option Slot} (hst : phase2 args = some st) (hord : Ordered 0 p.2.sections)
    (h : PagesFound img swap st.tables p) : Rooted p.2.sections := by
  have hlow := loadProcesses_low (fun _ => rfl) hst p.1
  obtain ⟨pid, src, sections⟩ := p
  cases sections with
  | nil => trivial
  | cons s rest =>
    obtain ⟨k, hk, -⟩ := h s (List.mem_cons_self ..) s.virt (le_refl _) (by have := hord.2.1; omega)
    by_contra hsmall
    have hpage : s.virt / 4096 = 0 := by
      have : ¬ 4096 ≤ s.virt := hsmall
      omega
    rw [hpage] at hk
    exact absurd (hlow.symm.trans hk) (by simp)

/-- The processes that are still to come have no entries. -/
def Unused (st : Phase2) : Prop := ∀ p, st.pid ≤ p → ∀ v, st.tables p v = none

/-- What each program keeps, both phases keep over all arguments. -/
theorem run_of_step {D : MiniElf → Prop} {P : List (Nat × MiniElf) → Phase1 → Phase2 → Prop}
    (hnext : ∀ {done st st'}, P done st st' →
      P done { st with pid := st.pid + 1 } { st' with pid := st'.pid + 1 })
    (hstep : ∀ {done st st' inis}, P done st st' → D inis →
      ∃ st'', loadProcess st' (.iniS inis) = some st'' ∧ st''.pid = st'.pid + 1 ∧
        P (done ++ [(st'.pid, inis)]) (copyProcess img st (.iniS inis)) st'')
    (args : List KernelArgument) {done : List (Nat × MiniElf)} {st : Phase1}
    (h : P done st st') (hdomain : ∀ p ∈ swapProcesses st'.pid args, D p.2) :
    ∃ st'', loadProcesses args st' = some st'' ∧
      P (done ++ swapProcesses st'.pid args) (args.foldl (copyProcess img) st) st'' := by
  induction args generalizing done st st' with
  | nil => exact ⟨st', rfl, by rwa [swapProcesses, List.append_nil]⟩
  | cons arg rest ih =>
    cases arg with
    | iniE | iniF => exact ih (hnext h) hdomain
    | other => exact ih h hdomain
    | iniS inis =>
      obtain ⟨st1, hload, hpid, h1⟩ := hstep h (hdomain _ (List.mem_cons_self ..))
      obtain ⟨st2, hloads, hall⟩ := ih h1 (by
        intro p hp
        rw [hpid] at hp
        exact hdomain p (List.mem_cons_of_mem _ hp))
      refine ⟨st2, by rw [loadProcesses, hload, Option.bind_some, hloads], ?_⟩
      rwa [hpid, List.append_assoc] at hall

/-- Phase 2 has counted as far as phase 1 or beyond, and no further only if every program is
packed. -/
structure Ahead (done : List (Nat × MiniElf)) (st : Phase1) (st' : Phase2) : Prop where
  unused : Unused st'
  le : st.swapFreePage ≤ st'.lastSwapPage
  packed : st'.lastSwapPage = st.swapFreePage → ∀ p ∈ done, Packed p.2.sections

theorem Ahead.iniS (img : Memory) {done : List (Nat × MiniElf)} {st : Phase1}
    (h : Ahead done st st') {inis : MiniElf} (hord : Ordered 0 inis.sections)
    (hroot : Rooted inis.sections) :
    ∃ st'', loadProcess st' (.iniS inis) = some st'' ∧ st''.pid = st'.pid + 1 ∧
      Ahead (done ++ [(st'.pid, inis)]) (copyProcess img st (.iniS inis)) st'' := by
  obtain ⟨hunused, hahead, hdone⟩ := h
  obtain ⟨src, sections⟩ := inis
  cases sections with
  | nil =>
    -- phase 1 gives a page back that the program never took
    refine ⟨_, rfl, rfl, fun p hp v => hunused p (Nat.le_of_succ_le hp) v, ?_, fun heq => ?_⟩
    · show st.swapFreePage - 1 ≤ st'.lastSwapPage
      omega
    · have heq' : st'.lastSwapPage = st.swapFreePage - 1 := heq
      omega
  | cons s rest =>
    obtain ⟨m, hload, hused, hothers, -, -⟩ := loadProgram_spec st' hord hroot (hunused _ (le_refl _))
    obtain ⟨hcopied, htight⟩ := processCopied img st src hord
    have hle := hcopied.free_le
    refine ⟨⟨m.tables, m.lastSwapPage, st'.pid + 1⟩, by rw [loadProcess, hload]; rfl, rfl, ?_, ?_, ?_⟩
    · intro p hp v
      have hp' : st'.pid + 1 ≤ p := hp
      show m.tables p v = none
      rw [hothers p (by omega)]
      exact hunused p (by omega) v
    · show _ ≤ m.lastSwapPage
      omega
    · intro heq p hp
      have heq' : m.lastSwapPage = (copyProcess img st (.iniS ⟨src, s :: rest⟩)).swapFreePage := heq
      rcases List.mem_append.mp hp with hp | hp
      · exact hdone (by omega) p hp
      · obtain rfl := List.mem_singleton.mp hp
        exact ⟨hroot, htight.mp (by omega)⟩

/-- Both phases after the same arguments, when every program was packed. -/
structure Joint (img : Memory) (done : List (Nat × MiniElf)) (st : Phase1) (st' : Phase2) : Prop where
  pid : st'.pid = st.pid + 1
  used : st'.lastSwapPage = st.swapFreePage
  entries : ∀ p v k, st'.tables p v = some k → p < st'.pid ∧ k < st'.lastSwapPage
  distinct : DistinctPages st'.tables
  pages : ∀ p ∈ done, PagesFound img st.swap st'.tables p

namespace Joint

variable {img : Memory} {done : List (Nat × MiniElf)} {st : Phase1} {st' : Phase2}

theorem unused (h : Joint img done st st') : Unused st' := by
  intro p hp v
  cases hv : st'.tables p v with
  | none => rfl
  | some k => exact absurd (h.entries p v k hv).1 (by omega)

theorem next (h : Joint img done st st') :
    Joint img done { st with pid := st.pid + 1 } { st' with pid := st'.pid + 1 } where
  pid := by rw [h.pid]
  used := h.used
  entries p v k hk := ⟨Nat.lt_succ_of_lt (h.entries p v k hk).1, (h.entries p v k hk).2⟩
  distinct := h.distinct
  pages := h.pages

theorem iniS (h : Joint img done st st') {inis : MiniElf} (hord : Ordered 0 inis.sections)
    (hpacked : Packed inis.sections) :
    ∃ st'', loadProcess st' (.iniS inis) = some st'' ∧ st''.pid = st'.pid + 1 ∧
      Joint img (done ++ [(st'.pid, inis)]) (copyProcess img st (.iniS inis)) st'' := by
  obtain ⟨src, sections⟩ := inis
  cases sections with
  | nil => exact hpacked.elim
  | cons s rest =>
    obtain ⟨hroot, htight⟩ := hpacked
    obtain ⟨m, hload, hused, hothers, hown, hreached⟩ := loadProgram_spec st' hord hroot (h.unused _ (le_refl _))
    obtain ⟨hcopied, hiff⟩ := processCopied img st src hord
    have hfree := hiff.mpr htight
    have hpid : st'.pid = (copyProcess img st (.iniS ⟨src, s :: rest⟩)).pid := h.pid.trans hcopied.pid.symm
    -- an entry of another process is an old one, so below the new pages
    have hold : ∀ p v k, p ≠ st'.pid → m.tables p v = some k → st'.tables p v = some k := by
      intro p v k hp hk
      rwa [hothers p hp] at hk
    have hnew : ∀ v k, m.tables st'.pid v = some k → st'.lastSwapPage ≤ k ∧ k < m.lastSwapPage := by
      intro v k hk
      have := hown v k hk
      omega
    have hgrow : st'.lastSwapPage ≤ m.lastSwapPage := by
      have := hnew _ _ (hreached s (List.mem_cons_self ..) s.virt (le_refl _) (by have := hord.2.1; omega))
      omega
    refine ⟨⟨m.tables, m.lastSwapPage, st'.pid + 1⟩, by rw [loadProcess, hload]; rfl, rfl,
      ⟨by rw [hpid], ?_, ?_, ?_, ?_⟩⟩
    · show m.lastSwapPage = _
      rw [hused, hfree, h.used]
    · intro p v k hk
      by_cases hp : p = st'.pid
      · subst hp
        exact ⟨Nat.lt_succ_self _, (hnew v k hk).2⟩
      · obtain ⟨hlt, hk'⟩ := h.entries p v k (hold p v k hp hk)
        exact ⟨Nat.lt_succ_of_lt hlt, lt_of_lt_of_le hk' hgrow⟩
    · intro p v p' v' k hk hk'
      by_cases hp : p = st'.pid <;> by_cases hp' : p' = st'.pid
      · subst hp hp'
        have := hown v k hk
        have := hown v' k hk'
        exact ⟨rfl, by omega⟩
      · subst hp
        have := (hnew v k hk).1
        have := (h.entries p' v' k (hold p' v' k hp' hk')).2
        omega
      · subst hp'
        have := (hnew v' k hk').1
        have := (h.entries p v k (hold p v k hp hk)).2
        omega
      · exact h.distinct p v p' v' k (hold p v k hp hk) (hold p' v' k hp' hk')
    · intro p hp
      rcases List.mem_append.mp hp with hp | hp
      · intro s' hs' a hlow hhigh
        obtain ⟨k, hk, hstored⟩ := h.pages p hp s' hs' a hlow hhigh
        obtain ⟨hlt, hk'⟩ := h.entries _ _ _ hk
        refine ⟨k, ?_, hstored.of_eq (hcopied.frame hfree k (by rw [← h.used]; exact hk'))⟩
        show m.tables p.1 _ = _
        rwa [hothers p.1 (by omega)]
      · obtain rfl := List.mem_singleton.mp hp
        intro s' hs' a hlow hhigh
        have hentry := hreached s' hs' a hlow hhigh
        obtain ⟨hfirst, hlast, -⟩ := hown _ _ hentry
        refine ⟨_, hentry, ?_⟩
        have := hcopied.stored hfree (a / 4096) hfirst hlast
        rwa [← h.used, ← hpid] at this

end Joint

theorem phasesAgree_of_packed
    (hdomain : ∀ p ∈ swapProcesses 2 args, Ordered 0 p.2.sections ∧ Packed p.2.sections) : PhasesAgree img args := by
  have hstart : Joint img [] ⟨fun _ => none, 0, 1⟩ ⟨fun _ _ => none, 0, 2⟩ :=
    ⟨rfl, rfl, fun _ _ _ hk => by simp at hk, fun _ _ _ _ _ hk => by simp at hk, by simp⟩
  obtain ⟨st, hload, hjoint⟩ := run_of_step
    (D := fun inis => Ordered 0 inis.sections ∧ Packed inis.sections) (fun h => h.next)
    (fun h hin => h.iniS hin.1 hin.2) args hstart hdomain
  exact ⟨st, hload, hjoint.pages, hjoint.distinct, hjoint.used⟩

theorem packed_of_phasesAgree (hord : ∀ p ∈ swapProcesses 2 args, Ordered 0 p.2.sections) (h : PhasesAgree img args) :
    ∀ p ∈ swapProcesses 2 args, Packed p.2.sections := by
  obtain ⟨st, hload, hfound, -, hused⟩ := h
  have hroot : ∀ p ∈ swapProcesses 2 args, Rooted p.2.sections := fun p hp =>
    rooted_of_pagesFound hload (hord p hp) (hfound p hp)
  have hstart : Ahead [] ⟨fun _ => none, 0, 1⟩ ⟨fun _ _ => none, 0, 2⟩ :=
    ⟨fun _ _ _ => rfl, le_refl _, by simp⟩
  obtain ⟨st', hload', hahead⟩ := run_of_step
    (D := fun inis => Ordered 0 inis.sections ∧ Rooted inis.sections) (P := Ahead)
    (fun h => { h with unused := fun p hp v => h.unused p (Nat.le_of_succ_le hp) v })
    (fun h hin => h.iniS img hin.1 hin.2) args hstart fun p hp => ⟨hord p hp, hroot p hp⟩
  obtain rfl : st = st' := Option.some.inj (hload.symm.trans hload')
  exact hahead.packed hused

/-- Phase 2 finds the pages where phase 1 put them, for all programs that take a swap page for each
page from their first section, not in page zero, to their last. -/
theorem phasesAgree_iff_packed (img : Memory) (args : List KernelArgument)
    (hord : ∀ p ∈ swapProcesses 2 args, Ordered 0 p.2.sections) :
    PhasesAgree img args ↔ ∀ p ∈ swapProcesses 2 args, Packed p.2.sections :=
  ⟨packed_of_phasesAgree hord, fun hpacked => phasesAgree_of_packed fun p hp => ⟨hord p hp, hpacked p hp⟩⟩

theorem phasesAgree_two_programs :
    PhasesAgree (fun a => UInt8.ofNat a) [.iniE, .iniS ⟨0x114, [⟨0x10114, 0x1000, false⟩, ⟨0x12000, 0x1000, false⟩, ⟨0x13010, 8, true⟩]⟩,
      .other, .iniS ⟨0x3000, [⟨0x10000, 0x2000, false⟩]⟩] :=
  (phasesAgree_iff_packed _ _ (by simp [swapProcesses, Ordered])).mpr
    (by simp [swapProcesses, Packed, Tight])

/-- Two pages lie free between the sections. Phase 2 passes over a swap page for each of them, phase 1 over none. -/
theorem not_phasesAgree_gap :
    (∀ p ∈ swapProcesses 2 [.iniS ⟨0, [⟨0x10000, 16, false⟩, ⟨0x13000, 16, false⟩]⟩], Ordered 0 p.2.sections) ∧
      ¬ PhasesAgree (fun a => UInt8.ofNat a) [.iniS ⟨0, [⟨0x10000, 16, false⟩, ⟨0x13000, 16, false⟩]⟩] := by
  have hord : ∀ p ∈ swapProcesses 2 [.iniS ⟨0, [⟨0x10000, 16, false⟩, ⟨0x13000, 16, false⟩]⟩],
      Ordered 0 p.2.sections := by simp [swapProcesses, Ordered]
  exact ⟨hord, fun h => by simpa [swapProcesses, Packed, Tight] using packed_of_phasesAgree hord h⟩

end BaochipXous.Loader
