import BaochipXous.KernelReleaseMemory

/-!
What page tables and ownership tables may hold. An allowance says which values each entry may have
and who owns each page; the lemmas say what each program of the memory manager needs to stay within
one.
-/

namespace BaochipXous.Kernel

open Prog Machine

/-- The memory of the platform, which no system call changes. -/
structure Layout where
  ramStart : Nat
  ramSize : Nat
  extraRegions : List (Nat × Nat)
  peripheralRam : Nat × Nat

def Memory.layout (m : Memory) : Layout where
  ramStart := m.ramStart
  ramSize := m.ramSize
  extraRegions := m.extraRegions
  peripheralRam := m.peripheralRam

namespace Layout

def isMain (l : Layout) (phys : Nat) : Bool :=
  decide (l.ramStart ≤ phys ∧ phys < l.ramStart + l.ramSize)

def isPeripheral (l : Layout) (phys : Nat) : Bool :=
  decide (l.peripheralRam.1 ≤ phys ∧ phys < l.peripheralRam.1 + l.peripheralRam.2)

def slot (l : Layout) (addr : Nat) : Option PhysPage :=
  if l.isMain addr then some (.main ((addr - l.ramStart) / pageSize))
  else (extraOffset addr 0 l.extraRegions).map .extra

/-- All regions consist of whole pages, and main memory is a part of the address range that holds no
peripheral memory. -/
structure Sound (l : Layout) : Prop where
  ram : l.ramStart % pageSize = 0 ∧ l.ramSize % pageSize = 0
  fits : l.ramStart + l.ramSize < 2 ^ 32
  regions : ∀ region ∈ l.extraRegions, region.1 % pageSize = 0 ∧ region.2 % pageSize = 0
  peripheral : ∀ phys, l.isMain phys = true → l.isPeripheral phys = false

end Layout

theorem le_extraOffset {addr offset i : Nat} {regions : List (Nat × Nat)}
    (h : extraOffset addr offset regions = some i) : offset ≤ i := by
  induction regions generalizing offset with
  | nil => contradiction
  | cons region rest ih =>
    rw [extraOffset] at h
    split at h
    · injection h with h
      exact h ▸ Nat.le_add_right _ _
    · exact (Nat.le_add_right _ _).trans (ih h)

theorem extraOffset_injOn {a b offset i : Nat} {regions : List (Nat × Nat)}
    (hpaged : ∀ region ∈ regions, region.1 % pageSize = 0 ∧ region.2 % pageSize = 0)
    (ha : a % pageSize = 0) (hb : b % pageSize = 0)
    (hia : extraOffset a offset regions = some i) (hib : extraOffset b offset regions = some i) :
    a = b := by
  induction regions generalizing offset with
  | nil => contradiction
  | cons region rest ih =>
    obtain ⟨hstart, hsize⟩ := hpaged region List.mem_cons_self
    rw [extraOffset] at hia hib
    -- an index within the first region is smaller than those of the other regions
    split at hia <;> split at hib
    · injection hia
      injection hib
      simp only [pageSize] at *
      omega
    · have hle := le_extraOffset hib
      injection hia
      simp only [pageSize] at *
      omega
    · have hle := le_extraOffset hia
      injection hib
      simp only [pageSize] at *
      omega
    · exact ih (fun r hr => hpaged r (List.mem_cons_of_mem region hr)) hia hib

namespace Layout

theorem Sound.slot_injOn {l : Layout} (h : l.Sound) {a b : Nat} {page : PhysPage}
    (ha : a % pageSize = 0) (hb : b % pageSize = 0) (hsa : l.slot a = some page)
    (hsb : l.slot b = some page) : a = b := by
  have hram := h.ram.1
  unfold slot at hsa hsb
  split at hsa <;> split at hsb
  · rename_i hma hmb
    simp only [isMain, decide_eq_true_eq] at hma hmb
    injection hsa with hsa
    subst hsa
    injection hsb with hsb
    injection hsb with hsb
    simp only [pageSize] at *
    omega
  · injection hsa with hsa
    subst hsa
    simp at hsb
  · injection hsb with hsb
    subst hsb
    simp at hsa
  · obtain ⟨i, hia, rfl⟩ := Option.map_eq_some_iff.mp hsa
    obtain ⟨j, hjb, hij⟩ := Option.map_eq_some_iff.mp hsb
    injection hij with hij
    subst hij
    exact extraOffset_injOn h.regions ha hb hia hjb

end Layout

namespace Memory

def holder (m : Memory) (addr : Nat) : Option PID := (m.layout.slot addr).bind m.owner

/-- Whether a page that has an owner may be claimed by it once more. -/
def allowAlias (m : Memory) : PhysPage → Bool
  | .main _ => false
  | .extra i => !m.isPeripheralRam i

end Memory

namespace Machine

def setOwner (m : Machine) (page : PhysPage) (owner : Option PID) : Machine :=
  match page with
  | .main i => { m with mem := { m.mem with
      allocations := Function.update m.mem.allocations i owner } }
  | .extra i => { m with mem := { m.mem with
      extraAllocations := Function.update m.mem.extraAllocations i owner } }

section SetOwner

variable (m : Machine) (page : PhysPage) (owner : Option PID)

@[simp] theorem setOwner_layout : (m.setOwner page owner).mem.layout = m.mem.layout := by
  cases page <;> rfl

@[simp] theorem setOwner_l1 : (m.setOwner page owner).mem.l1 = m.mem.l1 := by
  cases page <;> rfl

@[simp] theorem setOwner_pt : (m.setOwner page owner).mem.pt = m.mem.pt := by
  cases page <;> rfl

@[simp] theorem setOwner_satp : (m.setOwner page owner).satp = m.satp := by
  cases page <;> rfl

theorem setOwner_setEntry (virt : Nat) (e : PTE) :
    (m.setOwner page owner).setEntry virt e = (m.setEntry virt e).setOwner page owner := by
  cases page <;> rfl

theorem setOwner_owner (other : PhysPage) :
    (m.setOwner page owner).mem.owner other = if other = page then owner else m.mem.owner other := by
  cases page <;> cases other <;> simp [setOwner, Memory.owner, Function.update_apply]

end SetOwner

theorem setOwner_holder {m : Machine} (hlayout : m.mem.layout.Sound) {addr phys : Nat}
    {page : PhysPage} (haddr : addr % pageSize = 0) (hphys : phys % pageSize = 0)
    (hslot : m.mem.layout.slot addr = some page) (owner : Option PID) :
    (m.setOwner page owner).mem.holder phys = if phys = addr then owner else m.mem.holder phys := by
  rw [Memory.holder, Memory.holder, setOwner_layout]
  by_cases hsame : phys = addr
  · rw [if_pos hsame, hsame, hslot, Option.bind_some, setOwner_owner, if_pos rfl]
  · rw [if_neg hsame]
    cases hother : m.mem.layout.slot phys with
    | none => rfl
    | some other =>
      have hne : other ≠ page := by
        rintro rfl
        exact hsame (hlayout.slot_injOn hphys haddr hother hslot)
      rw [Option.bind_some, Option.bind_some, setOwner_owner, if_neg hne]

end Machine

theorem claimReleaseMove_spec (addr : Nat) (pid : PID) (action : ClaimReleaseMove) (m : Machine) :
    Post (claimReleaseMove addr pid action)
      (fun _ m' => addr % pageSize = 0 ∧ ∃ page owner, m.mem.layout.slot addr = some page ∧
        action.newOwner (m.mem.owner page) pid (m.mem.allowAlias page) = .ok owner ∧
        m' = m.setOwner page owner) (fun _ m' => m' = m) m := by
  unfold claimReleaseMove
  rw [post_ite]
  refine ⟨fun _ => rfl, fun haligned => ?_⟩
  have haligned : addr % pageSize = 0 := not_not.mp haligned
  rw [post_bind, post_gets, post_ite]
  refine ⟨fun hmain => ?_, fun hmain => ?_⟩
  · have hslot : m.mem.layout.slot addr = some (.main ((addr - m.mem.ramStart) / pageSize)) :=
      if_pos hmain
    rw [post_bind, post_ofExcept]
    exact ⟨fun owner howner => ⟨haligned, _, owner, hslot, howner, rfl⟩, fun _ _ => rfl⟩
  · have hslot : m.mem.layout.slot addr = (extraOffset addr 0 m.mem.extraRegions).map PhysPage.extra := if_neg hmain
    split
    · rfl
    · rename_i offset hoffset
      rw [hoffset, Option.map_some] at hslot
      rw [post_bind, post_ofExcept]
      exact ⟨fun owner howner => ⟨haligned, _, owner, hslot, howner, rfl⟩, fun _ _ => rfl⟩

/-- A page that is claimed was free, or is claimed once more by its owner if this is allowed. -/
theorem ClaimReleaseMove.newOwner_claim {owner owner' : Option PID} {pid : PID} {allowAlias : Bool}
    (h : claim.newOwner owner pid allowAlias = .ok owner') :
    owner' = some pid ∧ (owner = none ∨ (owner = some pid ∧ allowAlias = true)) := by
  cases owner with
  | none =>
    cases h
    exact ⟨rfl, .inl rfl⟩
  | some current =>
    by_cases hcurrent : current = pid
    · subst hcurrent
      cases allowAlias with
      | false => simp [newOwner] at h
      | true =>
        have hnew : some current = owner' := by simpa [newOwner] using h
        exact ⟨hnew.symm, .inr ⟨rfl, rfl⟩⟩
    · simp [newOwner, hcurrent] at h

theorem ClaimReleaseMove.newOwner_release {owner owner' : Option PID} {pid : PID}
    {allowAlias : Bool} (h : release.newOwner owner pid allowAlias = .ok owner') :
    owner' = none ∧ (owner = none ∨ owner = some pid) := by
  cases owner with
  | none =>
    cases h
    exact ⟨rfl, .inl rfl⟩
  | some current =>
    by_cases hcurrent : current = pid
    · subst hcurrent
      have hnew : none = owner' := by simpa [newOwner] using h
      exact ⟨hnew.symm, .inr rfl⟩
    · simp [newOwner, hcurrent] at h

theorem Machine.virtToPhys_ok {m : Machine} {virt phys : Nat} (h : m.virtToPhys virt = .ok phys) :
    m.rootValid virt = true ∧ (m.entry virt).valid = true ∧ (m.entry virt).s = false ∧ phys = (m.entry virt).phys := by
  unfold virtToPhys at h
  split_ifs at h with hroot hshared hvalid
  injection h with h
  exact ⟨by simpa using hroot, hvalid, by simpa using hshared, h.symm⟩

variable {lo hi x : Nat}

theorem mem_pages_aligned (hlo : lo % pageSize = 0) : x ∈ pages lo hi ↔ lo ≤ x ∧ x < hi ∧ x % pageSize = 0 := by
  simp only [mem_pages, pageSize] at *
  omega

theorem wadd_lt (a b : Nat) : wadd a b < 2 ^ 32 := Nat.mod_lt _ (by decide)

theorem mem_pages_of_mem {y : Nat} (hx : x ∈ pages lo hi) (hy : y ∈ pages lo x) : y ∈ pages lo hi := by
  rw [mem_pages] at *
  exact ⟨hy.1, hy.2.1.trans hx.2.1, hy.2.2⟩

theorem mem_front_of_mem_pages {y : Nat} {front rest : List Nat}
    (hpages : pages lo hi = front ++ x :: rest) (hy : y ∈ pages lo x) : y ∈ front := by
  have hx : x ∈ pages lo hi := by
    rw [hpages]
    simp
  have hmem := mem_pages_of_mem hx hy
  have hsorted : (front ++ x :: rest).Pairwise (· < ·) := by
    rw [← hpages]
    exact List.pairwise_lt_range' pageSize (by decide)
  have hlt := (mem_pages.mp hy).2.1
  rw [hpages, List.mem_append, List.mem_cons] at hmem
  rcases hmem with hfront | rfl | hrest
  · exact hfront
  · exact absurd hlt (lt_irrefl _)
  · have hgt := (List.pairwise_cons.mp (List.pairwise_append.mp hsorted).2.1).1 y hrest
    exact absurd hlt hgt.not_gt

theorem nodup_pages (lo hi : Nat) : (pages lo hi).Nodup := List.nodup_range' pageSize (by decide)

/-- A place that the search for `size` bytes can end with: it is free, and lies within the bounds of
the search. -/
structure Machine.Finds (m : Machine) (size start limit initial virt : Nat) : Prop where
  free : m.allFree size virt = true
  bounds : virt ∈ pages initial (wsub limit size) ∨ virt ∈ pages start initial

theorem Machine.findFree_finds {m : Machine} {size start limit initial virt : Nat}
    (h : m.findFree size start limit initial = some virt) : m.Finds size start limit initial virt := by
  rw [findFree, Option.or_eq_some_iff] at h
  rcases h with h | ⟨-, h⟩
  · exact ⟨List.find?_some h, .inl (List.mem_of_find?_eq_some h)⟩
  · exact ⟨List.find?_some h, .inr (List.mem_of_find?_eq_some h)⟩

/-- The address that is used is the one asked for, or one that a search has found. -/
def Machine.Chooses (m : Machine) (virtPtr size : Nat) (kind : MemoryType) (virt : Nat) : Prop :=
  if virtPtr ≠ 0 then virt = virtPtr
  else
    let inner := m.arch m.satp
    match kind with
    | .stack => False
    | .heap => virt = wadd (wadd inner.memHeapBase inner.memHeapSize) pageSize
    | .default => m.Finds size inner.memDefaultBase (wadd inner.memDefaultBase 0x10000000)
        inner.memDefaultLast virt
    | .messages => m.Finds size inner.memMessageBase (wadd inner.memMessageBase 0x400000)
        inner.memMessageLast virt

theorem findVirtualAddress_post (virtPtr size : Nat) (kind : MemoryType) (m : Machine) :
    Post (findVirtualAddress virtPtr size kind)
      (fun virt m' => m.Chooses virtPtr size kind virt ∧ ∃ arch, m' = { m with arch })
      (fun _ m' => m' = m) m := by
  unfold findVirtualAddress Machine.Chooses
  rw [post_ite]
  refine ⟨fun hgiven => ⟨?_, m.arch, rfl⟩, fun hzero => ?_⟩
  · rw [if_pos hgiven]
  rw [post_bind, post_get]
  cases kind with
  | stack => rfl
  | heap =>
    rw [post_ite]
    refine ⟨fun _ => rfl, fun _ => ⟨?_, m.arch, rfl⟩⟩
    rw [if_neg hzero]
  | default | messages =>
    rw [post_bind, post_ofOption]
    refine ⟨fun found hfound => ?_, fun _ => rfl⟩
    rw [post_bind, post_modify, post_pure, if_neg hzero]
    exact ⟨findFree_finds hfound, _, rfl⟩

def mappedEntry (phys : Nat) (flags : MemoryFlags) (user : Bool) : PTE :=
  { translateFlags flags with
    ppn := phys / pageSize % 2 ^ 20, user := user, valid := true, d := true, a := true }

theorem mappedEntry_phys {phys : Nat} (haligned : phys % pageSize = 0) (hphys : phys < 2 ^ 32)
    (flags : MemoryFlags) (user : Bool) : (mappedEntry phys flags user).phys = phys := by
  simp only [mappedEntry, PTE.phys, pageSize] at *
  omega

theorem PTE.phys_aligned (e : PTE) : e.phys % pageSize = 0 := Nat.mul_mod_left _ _

/-- What the entries of all address spaces may be, and who is to own a page. -/
structure Allowance where
  layout : Layout
  entry : PID → Nat → PTE → Prop
  owner : Nat → Option PID

namespace Allowance

/-- The machine stays within the allowance, and `space` is the active address space. -/
structure Obeyed (A : Allowance) (space : PID) (m : Machine) : Prop where
  layout : m.mem.layout = A.layout
  /-- An entry exists only under a valid root entry. -/
  rooted : ∀ q v, m.mem.l1 q (v / 1024) = false → m.mem.pt q v = .zero
  entries : ∀ q v, A.entry q v (m.mem.pt q v)
  owners : ∀ phys q, phys % pageSize = 0 → A.owner phys = some q → m.mem.holder phys = some q
  space : m.satp = space

/-- Pages of main memory may be used as leaf tables, above the addresses of the user. -/
def Tables (A : Allowance) : Prop :=
  ∀ q virt phys, userAreaEnd ≤ virt → virt < 2 ^ 32 → phys % pageSize = 0 →
    A.layout.isMain phys = true →
    A.entry q (vpn virt) (mappedEntry phys { r := true, w := true } false)

variable {A : Allowance} {space : PID} {m : Machine}

namespace Obeyed

section

variable (h : A.Obeyed space m)

include h

theorem entry (virt : Nat) : A.entry space (vpn virt) (m.entry virt) := by
  rw [Machine.entry, h.space]
  exact h.entries space (vpn virt)

theorem setEntry {virt : Nat} {e : PTE} (hroot : m.rootValid virt = true)
    (he : A.entry space (vpn virt) e) : A.Obeyed space (m.setEntry virt e) where
  layout := h.layout
  rooted := by
    intro q v hv
    rw [setEntry_pt, if_neg]
    · exact h.rooted q v hv
    · rintro ⟨rfl, rfl⟩
      rw [rootValid, vpn1] at hroot
      rw [setEntry_l1, hroot] at hv
      contradiction
  entries := by
    intro q v
    rw [setEntry_pt]
    split
    next heq => rwa [heq.1, heq.2, h.space]
    next => exact h.entries q v
  owners := h.owners
  space := h.space

theorem setRoot (virt : Nat) : A.Obeyed space (m.setRoot virt) where
  layout := h.layout
  rooted := by
    intro q v hv
    refine h.rooted q v ?_
    by_contra hne
    have htrue : m.mem.l1 q (v / 1024) = true := by simpa using hne
    by_cases hq : q = m.satp <;> by_cases hv' : v / 1024 = vpn1 virt <;> simp_all [Machine.setRoot]
  entries := h.entries
  owners := h.owners
  space := h.space

theorem clearTable {virt : Nat} (hzero : ∀ v, v / 1024 = vpn1 virt → A.entry space v .zero) :
    A.Obeyed space (m.clearTable virt) where
  layout := h.layout
  rooted := by
    intro q v hv
    have hold : m.mem.pt q v = .zero := h.rooted q v hv
    by_cases hq : q = m.satp
    · subst hq
      simp [Machine.clearTable, hold]
    · simp [Machine.clearTable, hq, hold]
  entries := by
    intro q v
    have hold := h.entries q v
    by_cases hq : q = m.satp
    · subst hq
      by_cases hv : v / 1024 = vpn1 virt
      · simpa [Machine.clearTable, hv, h.space] using hzero v hv
      · simpa [Machine.clearTable, hv] using hold
    · simpa [Machine.clearTable, hq] using hold
  owners := h.owners
  space := h.space

theorem withArch (arch : PID → ArchProcess) : A.Obeyed space { m with arch } := { h with }

theorem setOwner (hlayout : A.layout.Sound) {addr : Nat} {page : PhysPage}
    (haddr : addr % pageSize = 0) (hslot : m.mem.layout.slot addr = some page)
    (owner : Option PID) (howner : ∀ q, A.owner addr = some q → owner = some q) :
    A.Obeyed space (m.setOwner page owner) where
  layout := by rw [setOwner_layout, h.layout]
  rooted := by
    rw [setOwner_l1, setOwner_pt]
    exact h.rooted
  entries := by
    rw [setOwner_pt]
    exact h.entries
  owners := by
    intro phys q hphys hq
    rw [setOwner_holder (h.layout ▸ hlayout) haddr hphys hslot]
    split
    · rename_i heq
      exact howner q (heq ▸ hq)
    · exact h.owners phys q hphys hq
  space := by rw [setOwner_satp, h.space]

theorem mono {B : Allowance} (hlayout : B.layout = A.layout)
    (hentry : ∀ q v, A.entry q v (m.mem.pt q v) → B.entry q v (m.mem.pt q v))
    (howner : ∀ phys q, phys % pageSize = 0 → B.owner phys = some q → m.mem.holder phys = some q) : B.Obeyed space m :=
  ⟨h.layout.trans hlayout.symm, h.rooted, fun q v => hentry q v (h.entries q v), howner, h.space⟩

end

end Obeyed

end Allowance

namespace Allowance

variable {A : Allowance} {space : PID} {m : Machine}

theorem stable_root (q : PID) (i : Nat) :
    Machine.Stable (fun m => m.mem.l1 q i = true) (fun _ => True) where
  entry _ _ _ h := h
  root m virt h := by
    by_cases hq : q = m.satp <;> by_cases hi : i = vpn1 virt <;> simp_all [setRoot]
  table _ _ h := h
  owners _ _ _ _ h := h
  arch _ _ h := h
  lends _ _ h := h
  space _ _ _ h := h

theorem vpn1_lt (virt : Nat) : vpn1 virt < 1024 := by
  simp only [vpn1, vpn]
  omega

variable {virt addr : Nat} {flags : MemoryFlags}

theorem unreserveAddress_keeps (hzero : A.entry space (vpn addr) .zero) :
    Keeps (A.Obeyed space) (unreserveAddress addr) := by
  intro m hm
  unfold unreserveAddress
  rw [post_bind, post_gets, post_ite]
  refine ⟨fun _ => hm, fun hroot => ?_⟩
  rw [post_bind, post_gets, post_ite, post_modify]
  exact ⟨fun _ => hm, fun _ => hm.setEntry (by simpa using hroot) hzero⟩

theorem handPageToUser_keeps (huser : ∀ e : PTE, A.entry space (vpn virt) e → e.valid = true →
      A.entry space (vpn virt) { e with user := true }) :
    Keeps (A.Obeyed space) (handPageToUser virt) := by
  intro m hm
  unfold handPageToUser
  rw [post_bind, post_gets, post_bind, post_gets, post_ite, post_fail, post_ite, post_modify]
  refine ⟨fun _ => hm, fun hroot => ⟨fun _ => hm, fun hvalid => hm.setEntry ?_ (huser _ ?_ ?_)⟩⟩
  · simpa using hroot
  · exact hm.entry virt
  · simpa using hvalid

theorem unmapPageInner_post (hvirt : virt % pageSize = 0) (m : Machine) :
    Post (unmapPageInner virt) (fun _ m' => m.rootValid virt = true ∧ m' = m.setEntry virt .zero)
      (fun _ m' => m.rootValid virt = false ∧ m' = m) m := by
  have hfour : virt % 4 = 0 := by
    simp only [pageSize] at hvirt
    omega
  cases hroot : m.rootValid virt <;> simp [unmapPageInner, pagetableEntry, hfour, hroot]

theorem unmapPageInner_keeps (hzero : A.entry space (vpn virt) .zero) :
    Keeps (A.Obeyed space) (unmapPageInner virt) := by
  intro m hm
  unfold unmapPageInner pagetableEntry
  rw [post_bind, post_ite]
  refine ⟨fun _ => hm, fun _ => ?_⟩
  rw [post_bind, post_gets, post_ite]
  refine ⟨fun hroot => ?_, fun _ => hm⟩
  rw [post_gets, post_bind, post_modify]
  exact hm.setEntry hroot hzero

/-- An entry that is not VALID and not lent is allowed at every page of a range. -/
def Reservable (A : Allowance) (space : PID) (addrs : List Nat) : Prop :=
  ∀ addr ∈ addrs, ∀ e : PTE, e.valid = false → e.s = false → A.entry space (vpn addr) e

variable (hlayout : A.layout.Sound)

include hlayout

theorem allocPage_post (pid : PID) (hm : A.Obeyed space m) :
    Post (allocPage pid) (fun phys m' => A.Obeyed space m' ∧ phys % pageSize = 0 ∧ A.layout.isMain phys = true ∧
        m.mem.holder phys = none ∧ m'.mem.holder phys = some pid) (fun _ m' => m' = m) m := by
  have hstart := congrArg Layout.ramStart hm.layout
  have hsize := congrArg Layout.ramSize hm.layout
  unfold Kernel.allocPage
  rw [post_bind, post_gets, post_bind, post_assert]
  intro hbound
  split
  · rename_i i hfind
    have hfree : m.mem.allocations i = none := by simpa using List.find?_some hfind
    have hi : i < m.mem.ramSize / pageSize := by
      have hmem := List.mem_range.mp (List.mem_of_find?_eq_some hfind)
      have hbound := of_decide_eq_true hbound
      omega
    have hram := hlayout.ram
    have hmain : A.layout.isMain (i * pageSize + m.mem.ramStart) = true := by
      rw [Layout.isMain, decide_eq_true_eq, ← hstart, ← hsize]
      simp only [Memory.layout, pageSize] at *
      omega
    have haligned : (i * pageSize + m.mem.ramStart) % pageSize = 0 := by
      rw [← hstart] at hram
      simp only [Memory.layout, pageSize] at *
      omega
    have hslot : m.mem.layout.slot (i * pageSize + m.mem.ramStart) = some (.main i) := by
      rw [hm.layout, Layout.slot, if_pos hmain, ← hstart]
      simp [Memory.layout, pageSize]
    have hholder : m.mem.holder (i * pageSize + m.mem.ramStart) = none := by
      rwa [Memory.holder, hslot]
    rw [post_bind, post_modify, post_pure]
    have hset := hm.setOwner hlayout haligned hslot (some pid) fun q hq => by
      rw [hm.owners _ q haligned hq] at hholder
      contradiction
    refine ⟨{ hset with }, haligned, hmain, hholder, ?_⟩
    exact (setOwner_holder (hm.layout ▸ hlayout) haligned haligned hslot (some pid)).trans (if_pos rfl)
  · rfl

theorem claimReleaseMove_keeps (hnone : A.owner addr = none) (pid : PID) (action : ClaimReleaseMove) :
    Keeps (A.Obeyed space) (claimReleaseMove addr pid action) := by
  intro m hm
  refine (claimReleaseMove_spec addr pid action m).mono ?_ ?_
  · rintro _ _ ⟨haddr, page, owner, hslot, -, rfl⟩
    refine hm.setOwner hlayout haddr hslot owner fun q hq => ?_
    rw [hnone] at hq
    contradiction
  · rintro _ _ rfl
    exact hm

variable (htables : A.Tables)

include htables

theorem newTable_post {map : Nat → MM Unit} (pid : PID)
    (hmap : ∀ phys, A.entry space (vpn (pageTableOffset + vpn1 virt * pageSize))
        (mappedEntry phys { r := true, w := true } false) →
      Keeps (A.Obeyed space) (map phys) ∧
        Keeps (fun m => m.mem.l1 space (vpn1 virt) = true) (map phys)) (hm : A.Obeyed space m)
    (hroot : (!m.rootValid virt) = true) :
    Post (do
        let phys ← allocPage pid
        modify (setRoot · virt)
        map phys
        modify (clearTable · virt))
      (fun _ m' => A.Obeyed space m' ∧ m'.rootValid virt = true)
      (fun _ m' => A.Obeyed space m') m := by
  have hroot : m.rootValid virt = false := by simpa using hroot
  have hzero : ∀ v, v / 1024 = vpn1 virt → A.entry space v .zero := by
    intro v hv
    have hentry := hm.entries space v
    rwa [hm.rooted space v (by rw [hv, ← hm.space]; exact hroot)] at hentry
  rw [post_bind]
  refine (allocPage_post hlayout pid hm).mono ?_ ?_
  · rintro phys m1 ⟨hm1, haligned, hmain, -, -⟩
    rw [post_bind, post_modify, post_bind]
    have hwindow : A.entry space (vpn (pageTableOffset + vpn1 virt * pageSize))
        (mappedEntry phys { r := true, w := true } false) := by
      have hlt := vpn1_lt virt
      refine htables space _ phys ?_ ?_ haligned hmain <;> simp only [pageTableOffset, pageSize, userAreaEnd] <;> omega
    obtain ⟨hkeeps, hkeepsRoot⟩ := hmap phys hwindow
    have hset : (m1.setRoot virt).mem.l1 space (vpn1 virt) = true := by
      rw [← hm1.space]
      simp [setRoot]
    refine ((hkeeps _ (hm1.setRoot virt)).and (hkeepsRoot _ hset)).mono ?_ fun _ _ h => h.1
    rintro _ m2 ⟨hm2, hroot2⟩
    refine ⟨hm2.clearTable hzero, ?_⟩
    change m2.mem.l1 m2.satp (vpn1 virt) = true
    rwa [hm2.space]
  · rintro _ _ rfl
    exact hm

theorem mapPageWith_keeps (fuel : Nat) (pid : PID) {phys : Nat} {user : Bool}
    (hentry : A.entry space (vpn virt) (mappedEntry phys flags user)) :
    Keeps (A.Obeyed space) (mapPageWith fuel pid phys virt flags user) := by
  induction fuel generalizing phys virt flags user with
  | zero => exact .halt
  | succ fuel ih =>
    intro m hm
    rw [mapPageWith, post_bind, post_assert]
    intro _
    rw [post_bind, post_gets]
    refine .bind (R := fun _ m' => A.Obeyed space m' ∧ m'.rootValid virt = true) ?_ ?_
    · refine (post_when _ _).mpr ⟨fun hroot => ?_, fun hroot => ⟨hm, by simpa using hroot⟩⟩
      exact newTable_post hlayout htables pid (fun phys' hwindow =>
        ⟨ih hwindow, (stable_root space (vpn1 virt)).mapPageWith fuel pid phys' _ _ _⟩) hm hroot
    · rintro _ m' ⟨hm', hroot⟩
      rw [post_bind, post_gets, post_ite, post_modify]
      exact ⟨fun _ => hm', fun _ => hm'.setEntry hroot hentry⟩

theorem mapPageInner_keeps (pid : PID) {phys : Nat} {user : Bool}
    (hentry : A.entry space (vpn virt) (mappedEntry phys flags user)) :
    Keeps (A.Obeyed space) (mapPageInner pid phys virt flags user) :=
  mapPageWith_keeps hlayout htables 3 pid hentry

theorem reserveAddress_post (hentry : A.entry space (vpn addr) (translateFlags flags)) (hm : A.Obeyed space m) :
    Post (reserveAddress addr flags)
      (fun _ m' => A.Obeyed space m' ∧ m'.rootValid addr = true ∧ m'.entry addr = translateFlags flags)
      (fun _ m' => A.Obeyed space m') m := by
  unfold reserveAddress
  rw [post_bind, post_gets]
  refine .bind (R := fun _ m' => A.Obeyed space m' ∧ m'.rootValid addr = true) ?_ ?_
  · refine (post_when _ _).mpr ⟨fun hroot => ?_, fun hroot => ⟨hm, by simpa using hroot⟩⟩
    rw [post_bind, post_gets]
    exact newTable_post hlayout htables m.satp (fun phys hwindow =>
      ⟨mapPageInner_keeps hlayout htables _ hwindow,
        (stable_root space (vpn1 addr)).mapPageInner m.satp phys _ _ _⟩) hm hroot
  · rintro _ m' ⟨hm', hroot⟩
    rw [post_bind, post_gets, post_ite, post_modify]
    exact ⟨fun _ => hm', fun _ => ⟨hm'.setEntry hroot hentry, hroot, by simp⟩⟩

theorem reserveRange_post {virtPtr size : Nat} (flags : MemoryFlags)
    (hrange : ∀ virt, m.Chooses virtPtr size .default virt →
      A.Reservable space (pages virt (wadd virt size))) (hm : A.Obeyed space m) :
    Leaves (reserveRange virtPtr size flags) (A.Obeyed space) m := by
  unfold Leaves reserveRange
  rw [post_bind]
  refine (findVirtualAddress_post virtPtr size .default m).mono ?_ fun _ _ h => h ▸ hm
  rintro virt _ ⟨hvirt, arch, rfl⟩
  have hrange := hrange virt hvirt
  refine Keeps.ite _ (.fail _) (.ite _ (.fail _) (.bind ?_ fun _ => .ofExcept _)) _ (hm.withArch arch)
  intro m2 hm2
  refine post_forEach _ (fun addr haddr m3 hm3 => ?_) hm2
  rw [post_bind, post_attempt]
  refine (reserveAddress_post hlayout htables (hrange addr haddr _ rfl rfl) hm3).mono
    (fun _ _ h => h.1) fun e m4 hm4 => ?_
  -- the pages before this one are given up again
  refine Keeps.bind (.forEach_mem _ fun undo hundo => .unwrap ?_) (fun _ => .fail _) m4 hm4
  exact unreserveAddress_keeps (hrange undo (mem_pages_of_mem haddr hundo) _ rfl rfl)

theorem mapVirtual_keeps {virtPtr size : Nat}
    (hrange : A.Reservable space (pages (virtPtr - virtPtr % pageSize) (virtPtr + size))) :
    Keeps (A.Obeyed space) (mapVirtual virtPtr size) := by
  refine .ite _ (.fail _) (.bind (.forEach_mem _ fun virt hvirt m hm => ?_) fun _ => .ofExcept _)
  have hrange := hrange virt (by
    rw [mem_pages] at hvirt ⊢
    simp only [wadd, pageSize] at *
    omega)
  refine (reserveAddress_post hlayout htables (hrange _ rfl rfl) hm).bind ?_
  rintro _ m1 ⟨hm1, hroot, hentry⟩
  rw [post_bind, pagetableEntry, post_ite]
  refine ⟨fun _ => hm1, fun _ => ?_⟩
  rw [post_bind, post_gets, post_ite]
  refine ⟨fun _ => ?_, fun _ => hm1⟩
  rw [post_gets, post_modify]
  refine hm1.setEntry hroot (hrange _ ?_ ?_) <;> rw [hentry] <;> rfl

end Allowance

end BaochipXous.Kernel
