import BaochipXous.LibProg

/-!
The allocator for the two banks of memory that the DMA engines reach: one table for each bank, where
a page is free or has an owner. Next to the tables the development keeps the allocations that
clients hold, as the replies announced them.
-/

namespace BaochipXous.Ifram

open Prog

inductive Bank where
  | ifram0
  | ifram1
  deriving DecidableEq, Repr

abbrev Sender := Nat

abbrev Table := List (Option Sender)

abbrev Allocs := Bank → Table

def pageSize : Nat := 4096

def memLen : Nat := 0x20000

def Bank.base : Bank → Nat
  | .ifram0 => 0x50000000
  | .ifram1 => 0x50020000

def Bank.number : Bank → Nat
  | .ifram0 => 0
  | .ifram1 => 1

/-- `IFRAM0_RESERVED_PAGE_RANGE` and `IFRAM1_RESERVED_PAGE_RANGE` of the board, both ends inclusive. -/
def Bank.reservedPageRange : Bank → Nat × Nat
  | .ifram0 => (31 - 9 - 5, 31)
  | .ifram1 => (31 - 30, 31)

/-- The number of whole pages that hold `size` bytes. -/
def sizePages (size : Nat) : Nat := if size % pageSize ≠ 0 then size / pageSize + 1 else size / pageSize

def setRange (table : Table) (first count : Nat) (entry : Option Sender) : Table :=
  table.mapIdx fun i page => if first ≤ i ∧ i < first + count then entry else page

def setPages (allocs : Allocs) (bank : Bank) (first count : Nat) (entry : Option Sender) : Allocs :=
  Function.update allocs bank (setRange (allocs bank) first count entry)

/-- The mark of pages that were taken before the server started. -/
def loaderSender : Sender := 2 ^ 32 - 1

def swapperPid : Sender := 2

variable (bank : Bank)

def Bank.initialTable : Table :=
  let (first, last) := bank.reservedPageRange
  let table := setRange (List.replicate (memLen / pageSize) none) first (last + 1 - first) (some loaderSender)
  match bank with
  | .ifram0 => setRange table 30 1 (some swapperPid)
  | .ifram1 => table

/-- The loop over the entries, with start and length of the present run of free pages. The run is
given up at an entry in use even if it is long enough. -/
def search (sizePages : Nat) : Table → (index : Nat) → (freeStart : Option Nat) → (foundLen : Nat) →
    Option Nat × Nat
  | [], _, freeStart, foundLen => (freeStart, foundLen)
  | some _ :: rest, index, _, _ => search sizePages rest (index + 1) none 0
  | none :: rest, index, some start, foundLen =>
    if foundLen ≥ sizePages then (some start, foundLen)
    else search sizePages rest (index + 1) (some start) (foundLen + 1)
  | none :: rest, index, none, _ => search sizePages rest (index + 1) (some index) 1

def tryAlloc (size : Nat) (sender : Sender) : Prog Empty Allocs (Option Nat) := do
  let table ← gets (· bank)
  match search (sizePages size) table 0 none 0 with
  | (some start, foundLen) =>
    if foundLen ≥ sizePages size then do
      assert (foundLen == sizePages size)
      modify fun allocs => setPages allocs bank start foundLen (some sender)
      pure (some (start * pageSize))
    else pure none
  | (none, _) => pure none

/-- Any other number than those of the banks leaves the choice to the server. -/
def Bank.requested (requestedBank : Nat) : Bool :=
  bank.number == requestedBank || requestedBank > 1

/-- The loop over the banks, up to the first one that has the pages. -/
def allocIn (sender size requestedBank : Nat) : List Bank → Prog Empty Allocs (Option Nat)
  | [] => pure none
  | bank :: rest =>
    if bank.requested requestedBank then do
      match ← tryAlloc bank size sender with
      | some offset => pure (some (bank.base + offset))
      | none => allocIn sender size requestedBank rest
    else allocIn sender size requestedBank rest

/-- The reply is the size and the address, both zero when there is no room. -/
def mapIfram (sender size requestedBank : Nat) : Prog Empty Allocs (Nat × Nat) := do
  match ← allocIn sender size requestedBank [.ifram0, .ifram1] with
  | some addr => pure (size, addr)
  | none => pure (0, 0)

/-- The bank a physical address lies in, and how far into it. -/
def bankOf (physAddr : Nat) : Option (Bank × Nat) :=
  if Bank.base .ifram0 ≤ physAddr ∧ physAddr < Bank.base .ifram0 + memLen then
    some (.ifram0, physAddr - Bank.base .ifram0)
  else if Bank.base .ifram1 ≤ physAddr ∧ physAddr < Bank.base .ifram1 + memLen then
    some (.ifram1, physAddr - Bank.base .ifram1)
  else none

/-- The table is indexed by the offset into the bank as it is, in bytes. -/
def unmapIfram (mappedSize physAddr : Nat) : Prog Empty Allocs Unit := do
  match bankOf physAddr with
  | none => halt
  | some (bank, offset) => do
    let table ← gets (· bank)
    assert (offset + sizePages mappedSize ≤ table.length)
    modify fun allocs => setPages allocs bank offset (sizePages mappedSize) none

inductive Message where
  | map (sender size requestedBank : Nat)
  | unmap (mappedSize physAddr : Nat)
  deriving Repr

/-- Pages a client was told it may use. -/
structure Alloc where
  bank : Bank
  start : Nat
  pages : Nat

def Alloc.addr (a : Alloc) : Nat := a.bank.base + a.start * pageSize

def Alloc.Covers (a : Alloc) (bank : Bank) (page : Nat) : Prop :=
  bank = a.bank ∧ a.start ≤ page ∧ page < a.start + a.pages

/-- The message gives back this allocation. -/
def Alloc.named (mappedSize physAddr : Nat) (a : Alloc) : Bool :=
  a.addr == physAddr && a.pages == sizePages mappedSize

/-- What a client reads out of the reply to a request. -/
def granted (size addr : Nat) : Option Alloc :=
  if size = 0 then none
  else (bankOf addr).map fun (bank, offset) => ⟨bank, offset / pageSize, sizePages size⟩

/-- The tables and the allocations that were announced and not given back. -/
structure Server where
  allocs : Allocs
  live : List Alloc

open Server

def Server.start : Server := ⟨Bank.initialTable, []⟩

def Server.serve (s : Server) : Message → Option Server
  | .map sender size requestedBank =>
    match mapIfram sender size requestedBank s.allocs with
    | .ok (size, addr) allocs => some ⟨allocs, s.live ++ (granted size addr).toList⟩
    | _ => none
  | .unmap mappedSize physAddr =>
    match unmapIfram mappedSize physAddr s.allocs with
    | .ok _ allocs => some ⟨allocs, s.live.filter fun a => !a.named mappedSize physAddr⟩
    | _ => none

def Alloc.Apart (a b : Alloc) : Prop :=
  a.bank = b.bank → a.start + a.pages ≤ b.start ∨ b.start + b.pages ≤ a.start

instance : Std.Symm Alloc.Apart := ⟨fun _ _ h hbank => (h hbank.symm).symm⟩

/-- The allocations that clients hold are apart from each other, inside their bank, and away from the
reserved pages. -/
structure Sound (live : List Alloc) : Prop where
  inside : ∀ a ∈ live, a.start + a.pages ≤ memLen / pageSize
  unreserved : ∀ a ∈ live, a.start + a.pages ≤ a.bank.reservedPageRange.1
  apart : live.Pairwise Alloc.Apart

/-- An unmap of an allocation that is held frees exactly its pages, any other unmap frees nothing. -/
def FreesExactly (s s' : Server) : Message → Prop
  | .map .. => True
  | .unmap mappedSize physAddr =>
    (∀ a ∈ s.live, a.named mappedSize physAddr →
      s'.allocs = setPages s.allocs a.bank a.start a.pages none) ∧
    ((∀ a ∈ s.live, a.named mappedSize physAddr = false) →
      ∀ (bank : Bank) (page : Nat), (s'.allocs bank)[page]? = some none → (s.allocs bank)[page]? = some none)

/-- The server gets through the messages, and the clients may rely on it all the way. -/
def Safe (s : Server) : List Message → Prop
  | [] => Sound s.live
  | m :: rest => Sound s.live ∧ ∃ s', s.serve m = some s' ∧ FreesExactly s s' m ∧ Safe s' rest

/-- Every free page is followed by one in use. -/
def Sparse (table : Table) : Prop :=
  ∀ page : Nat, table[page]? = some none → ∃ who, table[page + 1]? = some (some who)

/-- The messages that do not reach a defect. No page at all is asked for only where no two free
pages are neighbours. An address given back lies as many bytes into its bank as the number of a page
of the bank, from which an allocation is given back or all is free already. -/
def Meant (s : Server) : Message → Prop
  | .map _ size requestedBank =>
    size = 0 → ∀ bank : Bank, bank.requested requestedBank → Sparse (s.allocs bank)
  | .unmap mappedSize physAddr => ∃ bank offset, bankOf physAddr = some (bank, offset) ∧
      offset + sizePages mappedSize ≤ memLen / pageSize ∧
      ((∃ a ∈ s.live, a.named mappedSize physAddr) ∨
        ∀ page : Nat, offset ≤ page → page < offset + sizePages mappedSize → (s.allocs bank)[page]? = some none)

def AllMeant (s : Server) : List Message → Prop
  | [] => True
  | m :: rest => Meant s m ∧ ∀ s', s.serve m = some s' → AllMeant s' rest

variable (table : Table)

@[simp] theorem length_setRange (first count : Nat) (entry : Option Sender) :
    (setRange table first count entry).length = table.length := by simp [setRange]

theorem getElem?_setRange (first count : Nat) (entry : Option Sender) (i : Nat) :
    (setRange table first count entry)[i]? =
      if first ≤ i ∧ i < first + count then table[i]?.map fun _ => entry else table[i]? := by
  rw [setRange, List.getElem?_mapIdx]
  split
  · rfl
  · exact Option.map_id'

theorem length_setPages (allocs : Allocs) (bank : Bank) (first count : Nat) (entry : Option Sender)
    (b : Bank) : (setPages allocs bank first count entry b).length = (allocs b).length := by
  by_cases hb : b = bank
  · subst hb
    rw [setPages, Function.update_self, length_setRange]
  · rw [setPages, Function.update_of_ne hb]

theorem getElem?_setPages (allocs : Allocs) (bank : Bank) (first count : Nat) (entry : Option Sender)
    (b : Bank) (i : Nat) : (setPages allocs bank first count entry b)[i]? =
      if b = bank ∧ first ≤ i ∧ i < first + count then (allocs b)[i]?.map fun _ => entry
      else (allocs b)[i]? := by
  by_cases hb : b = bank
  · subst hb
    simp [setPages, getElem?_setRange]
  · simp [setPages, hb]

def Free (table : Table) (first count : Nat) : Prop :=
  ∀ i, first ≤ i → i < first + count → table[i]? = some none

variable {first count : Nat}

theorem Free.snoc {table : Table} (h : Free table first count)
    (hnext : table[first + count]? = some none) : Free table first (count + 1) := by
  intro i hlo hhi
  by_cases hi : i < first + count
  · exact h i hlo hi
  · rwa [show i = first + count by omega]

theorem free_one {table : Table} (h : table[first]? = some none) : Free table first 1 := by
  intro i hlo hhi
  rwa [show i = first by omega]

theorem eq_drop_cons {α : Type} {table rest : List α} {page : α} {index : Nat}
    (h : page :: rest = table.drop index) : table[index]? = some page ∧ rest = table.drop (index + 1) := by
  constructor
  · rw [← Nat.add_zero index, ← List.getElem?_drop, ← h, List.getElem?_cons_zero]
  · rw [← List.tail_drop, ← h, List.tail_cons]

theorem search_spec (n : Nat) (rest : Table) (index : Nat) (start : Option Nat)
    (len : Nat) (hrest : rest = table.drop index) (hinv : ∀ first, start = some first →
      Free table first len ∧ first + len = index ∧ 1 ≤ len ∧ len ≤ max n 1) (h : search n rest index start len = (some first, count)) :
    Free table first count ∧ 1 ≤ count ∧ count ≤ max n 1 ∧
      (Free table first (count + 1) ∨ first + count = table.length) := by
  fun_induction search n rest index start len with
  | case1 index start len =>
    cases h
    obtain ⟨hfree, hindex, hpos, hlen⟩ := hinv first rfl
    have hend : table.length ≤ index := List.drop_eq_nil_iff.mp hrest.symm
    have hlast := (List.getElem?_eq_some_iff.mp (hfree (index - 1) (by omega) (by omega))).1
    exact ⟨hfree, hpos, hlen, .inr (by omega)⟩
  | case2 _ _ _ _ _ ih => exact ih (eq_drop_cons hrest).2 nofun h
  | case3 =>
    cases h
    obtain ⟨hfree, hindex, hpos, hlen⟩ := hinv first rfl
    exact ⟨hfree, hpos, hlen, .inl (hfree.snoc (hindex ▸ (eq_drop_cons hrest).1))⟩
  | case4 _ _ start _ _ ih =>
    obtain ⟨hpage, htable⟩ := eq_drop_cons hrest
    obtain ⟨hfree, hindex, hpos, -⟩ := hinv start rfl
    refine ih htable ?_ h
    rintro _ ⟨⟩
    exact ⟨hfree.snoc (hindex ▸ hpage), by omega, by omega, by omega⟩
  | case5 _ _ _ ih =>
    obtain ⟨hpage, htable⟩ := eq_drop_cons hrest
    refine ih htable ?_ h
    rintro _ ⟨⟩
    exact ⟨free_one hpage, rfl, by omega, by omega⟩

/-- The tables in which `n` pages are found: a run that is long enough is noticed only by the free page
after it, or at the end of the table. -/
def Roomy (table : Table) (n : Nat) : Prop :=
  (∃ first, Free table first (n + 1)) ∨ Free table (table.length - n) n

/-- A search that comes to nothing has passed no run that it would notice: the runs before the
present one have just the pages asked for, and a page in use after them. -/
theorem not_roomy_of_search {n : Nat} (hn : 1 ≤ n) (rest : Table) (index : Nat)
    (start : Option Nat) (len : Nat) (hrest : rest = table.drop index) (hindex : index ≤ table.length)
    (hlen : len ≤ n) (hstart : start = none → len = 0)
    (hruns : ∀ i c, n ≤ c → Free table i c → index ≤ i + len ∨ (c = n ∧ i + n + len < index))
    (h : (search n rest index start len).1 = none ∨ (search n rest index start len).2 < n) :
    ¬ Roomy table n := by
  fun_induction search n rest index start len with
  | case1 index start len =>
    have hend : table.length ≤ index := List.drop_eq_nil_iff.mp hrest.symm
    have hshort : len < n := h.elim (fun hnone => hstart hnone ▸ hn) id
    have hnone {i c : Nat} (hc : n ≤ c) (hfree : Free table i c) : i + c < table.length := by
      have := (List.getElem?_eq_some_iff.mp (hfree (i + c - 1) (by omega) (by omega))).1
      have := hruns i c hc hfree
      omega
    rintro (⟨i, hfree⟩ | hfree)
    · have := hnone (Nat.le_succ n) hfree
      have := hruns i _ (Nat.le_succ n) hfree
      omega
    · have := hnone le_rfl hfree
      omega
  | case2 _ len _ rest index ih =>
    obtain ⟨hpage, htable⟩ := eq_drop_cons hrest
    refine ih htable (List.getElem?_eq_some_iff.mp hpage).1 (by omega) (fun _ => rfl) (fun i c hc hfree => ?_) h
    have hused : index < i ∨ i + c ≤ index := by
      by_contra hin
      exact absurd (hpage.symm.trans (hfree index (by omega) (by omega))) (by simp)
    have := hruns i c hc hfree
    omega
  | case3 => exact absurd h (by simp; omega)
  | case4 rest index start len hshort ih =>
    obtain ⟨hpage, htable⟩ := eq_drop_cons hrest
    refine ih htable (List.getElem?_eq_some_iff.mp hpage).1 (by omega) nofun (fun i c hc hfree => ?_) h
    have := hruns i c hc hfree
    omega
  | case5 rest index len ih =>
    obtain ⟨hpage, htable⟩ := eq_drop_cons hrest
    refine ih htable (List.getElem?_eq_some_iff.mp hpage).1 hn nofun (fun i c hc hfree => ?_) h
    have := hruns i c hc hfree
    have := hstart rfl
    omega

theorem sparse_cons_some {who : Sender} {rest : Table} : Sparse (some who :: rest) ↔ Sparse rest := by
  constructor
  · intro h page hpage
    simpa using h (page + 1) (by simpa using hpage)
  · intro h page hpage
    cases page with
    | zero => simp at hpage
    | succ page => simpa using h page (by simpa using hpage)

theorem sparse_cons_none {rest : Table} : Sparse (none :: rest) ↔ (∃ who, rest[0]? = some (some who)) ∧ Sparse rest := by
  constructor
  · intro h
    refine ⟨by simpa using h 0 rfl, fun page hpage => ?_⟩
    simpa using h (page + 1) (by simpa using hpage)
  · rintro ⟨hnext, h⟩ page hpage
    cases page with
    | zero => simpa using hnext
    | succ page => simpa using h page (by simpa using hpage)

/-- A search for no page comes to nothing only if no free page is followed by another one. -/
theorem search_zero_eq_none (rest : Table) (index : Nat) (start : Option Nat) (len : Nat) :
    (search 0 rest index start len).1 = none ↔ (start.isSome → ∃ who, rest[0]? = some (some who)) ∧ Sparse rest := by
  fun_induction search 0 rest index start len with
  | case1 index start len => simp [Sparse]
  | case2 who rest index _ _ ih => simp [ih, sparse_cons_some]
  | case3 rest index start len hlen => simp
  | case4 rest index start len hlen => exact absurd (Nat.zero_le _) hlen
  | case5 rest index len ih => simp [ih, sparse_cons_none]

theorem sizePages_eq_zero {size : Nat} : sizePages size = 0 ↔ size = 0 := by
  unfold sizePages pageSize
  split <;> omega

theorem tryAlloc_cases (size : Nat) (sender : Sender) (allocs : Allocs) :
    (tryAlloc bank size sender allocs = .panic ∧ size = 0 ∧ ¬ Sparse (allocs bank)) ∨
    (tryAlloc bank size sender allocs = .ok none allocs ∧ (size = 0 → Sparse (allocs bank)) ∧
      (1 ≤ size → ¬ Roomy (allocs bank) (sizePages size))) ∨
    (∃ first, tryAlloc bank size sender allocs =
        .ok (some (first * pageSize)) (setPages allocs bank first (sizePages size) (some sender)) ∧
      Free (allocs bank) first (sizePages size) ∧ 1 ≤ size ∧ Roomy (allocs bank) (sizePages size)) := by
  have hzero : size = 0 → ((search (sizePages size) (allocs bank) 0 none 0).1 = none ↔ Sparse (allocs bank)) := by
    intro hsize
    rw [sizePages_eq_zero.mpr hsize]
    simpa using search_zero_eq_none (allocs bank) 0 none 0
  have hmiss (hpos : 1 ≤ size) := not_roomy_of_search (allocs bank) (n := sizePages size)
    (by have := @sizePages_eq_zero size; omega) (allocs bank) 0 none 0 rfl (Nat.zero_le _)
    (Nat.zero_le _) (fun _ => rfl) (fun i c _ _ => .inl (Nat.zero_le _))
  rcases hsearch : search (sizePages size) (allocs bank) 0 none 0 with ⟨start, count⟩
  rw [hsearch] at hzero hmiss
  cases start with
  | none =>
    exact .inr (.inl ⟨by simp [tryAlloc, bind_apply, hsearch], fun hsize => (hzero hsize).mp rfl,
      fun hpos => hmiss hpos (.inl rfl)⟩)
  | some first =>
    obtain ⟨hfree, hpos, hcount, hroom⟩ := search_spec (allocs bank) _ _ 0 none 0 rfl nofun hsearch
    by_cases hsize : size = 0
    · -- the run that was found has a page in it, and the assertion wants none
      have hpages : sizePages size = 0 := sizePages_eq_zero.mpr hsize
      have hne : count ≠ sizePages size := by omega
      have hle : sizePages size ≤ count := by omega
      refine .inl ⟨?_, hsize, fun hsparse => absurd ((hzero hsize).mpr hsparse) (by nofun)⟩
      simp [tryAlloc, bind_apply, hsearch, Prog.assert, hne, hle]
    · have hpages : sizePages size ≠ 0 := fun h => hsize (sizePages_eq_zero.mp h)
      by_cases hlong : sizePages size ≤ count
      · obtain rfl : count = sizePages size := by omega
        refine .inr (.inr ⟨first, ?_, hfree, by omega, hroom.imp (fun h => ⟨first, h⟩) fun hend => ?_⟩)
        · simp [tryAlloc, bind_apply, hsearch, Prog.assert]
        · rwa [← hend, Nat.add_sub_cancel]
      · exact .inr (.inl ⟨by simp [tryAlloc, bind_apply, hsearch, hlong], fun h => absurd h hsize,
          fun hpos => hmiss hpos (.inr (by omega))⟩)

/-- A request is answered by pages exactly if enough of them are free in a row, and takes just those. -/
def Serves (size : Nat) (sender : Sender) (allocs : Allocs) : Prop :=
  ((∃ offset allocs', tryAlloc bank size sender allocs = .ok (some offset) allocs') ↔
    ∃ first, Free (allocs bank) first (sizePages size)) ∧
  (tryAlloc bank size sender allocs = .ok none allocs ∨
    ∃ first, Free (allocs bank) first (sizePages size) ∧ tryAlloc bank size sender allocs =
      .ok (some (first * pageSize)) (setPages allocs bank first (sizePages size) (some sender)))

/-- A request that fits somewhere in its bank is answered just when it also fits where `try_alloc` looks. -/
theorem request_is_served_iff (bank : Bank) {size : Nat} (hsize : 0 < size) (sender : Sender) (allocs : Allocs) :
    Serves bank size sender allocs ↔
      ((∃ first, Free (allocs bank) first (sizePages size)) → Roomy (allocs bank) (sizePages size)) := by
  rcases tryAlloc_cases bank size sender allocs with
    ⟨-, hzero, -⟩ | ⟨htry, -, hroom⟩ | ⟨first, htry, hfree, -, hroom⟩
  · omega
  · have hnone : ¬ ∃ offset allocs', tryAlloc bank size sender allocs = .ok (some offset) allocs' := by
      simp [htry]
    refine ⟨fun h hfree => absurd (h.1.mpr hfree) hnone, fun h => ⟨⟨fun hsome => absurd hsome hnone, ?_⟩, .inl htry⟩⟩
    exact fun hfree => absurd (h hfree) (hroom hsize)
  · exact ⟨fun _ _ => hroom, fun _ => ⟨⟨fun _ => ⟨first, hfree⟩, fun _ => ⟨_, _, htry⟩⟩, .inr ⟨first, hfree, htry⟩⟩⟩

theorem last_page_is_served : Serves .ifram0 4096 3 fun _ => [some 2, none] :=
  (request_is_served_iff .ifram0 (by decide) 3 _).mpr fun _ => .inr (free_one rfl)

/-- One page is free, and one is asked for, but the page after it is in use. -/
theorem single_page_is_missed : ¬ Serves .ifram0 4096 3 fun _ => [none, some 2] := by
  intro h
  obtain ⟨_, _, hrun⟩ := h.1.mpr ⟨0, free_one rfl⟩
  cases hrun

/-- The ways a search through the banks ends: a panic on a request for nothing, no room, or pages that
were free. -/
theorem allocIn_cases (sender size requestedBank : Nat) (allocs : Allocs) (banks : List Bank) :
    (allocIn sender size requestedBank banks allocs = .panic ∧ size = 0 ∧
      ∃ bank ∈ banks, bank.requested requestedBank ∧ ¬ Sparse (allocs bank)) ∨
    ((size = 0 → ∀ bank ∈ banks, bank.requested requestedBank → Sparse (allocs bank)) ∧
      (allocIn sender size requestedBank banks allocs = .ok none allocs ∨
      ∃ bank first, allocIn sender size requestedBank banks allocs =
          .ok (some (bank.base + first * pageSize)) (setPages allocs bank first (sizePages size) (some sender)) ∧
        Free (allocs bank) first (sizePages size) ∧ 1 ≤ size)) := by
  induction banks with
  | nil => exact .inr ⟨nofun, .inl rfl⟩
  | cons bank rest ih =>
    by_cases hskip : allocIn sender size requestedBank (bank :: rest) allocs =
          allocIn sender size requestedBank rest allocs ∧
        (size = 0 → bank.requested requestedBank → Sparse (allocs bank))
    · rw [hskip.1]
      rcases ih with ⟨hrest, hsize, b, hb, hbreq, hdense⟩ | ⟨hall, hrest⟩
      · exact .inl ⟨hrest, hsize, b, List.mem_cons_of_mem _ hb, hbreq, hdense⟩
      · exact .inr ⟨fun hsize => List.forall_mem_cons.mpr ⟨hskip.2 hsize, hall hsize⟩, hrest⟩
    · have hreq : bank.requested requestedBank := by
        by_contra hreq
        exact hskip ⟨by simp [allocIn, hreq], fun _ h => absurd h hreq⟩
      rcases tryAlloc_cases bank size sender allocs with
        ⟨htry, hsize, hdense⟩ | ⟨htry, hsparse, -⟩ | ⟨first, htry, hfree, hpos, -⟩
      · exact .inl ⟨by simp [allocIn, hreq, bind_apply, htry], hsize, bank, List.mem_cons_self, hreq, hdense⟩
      · exact absurd ⟨by simp [allocIn, hreq, bind_apply, htry], fun hsize _ => hsparse hsize⟩ hskip
      · refine .inr ⟨fun hsize => by omega, .inr ⟨bank, first, ?_, hfree, hpos⟩⟩
        simp [allocIn, hreq, bind_apply, htry]

/-- The tables say of every page that a client holds, and of every reserved page, that it is in use. -/
structure Inv (s : Server) : Prop where
  sound : Sound s.live
  pages : ∀ a ∈ s.live, 1 ≤ a.pages
  length : ∀ bank, (s.allocs bank).length = memLen / pageSize
  reserved : ∀ (bank : Bank) (page : Nat), bank.reservedPageRange.1 ≤ page →
    (s.allocs bank)[page]? ≠ some none
  held : ∀ a ∈ s.live, ∀ page : Nat, a.start ≤ page → page < a.start + a.pages →
    (s.allocs a.bank)[page]? ≠ some none

theorem inv_start : Inv start where
  sound := ⟨nofun, nofun, .nil⟩
  pages := nofun
  length := by rintro (_ | _) <;> decide
  reserved := by
    intro bank page hpage h
    have hlt : page < 32 := by
      have hlen : (start.allocs bank).length = 32 := by cases bank <;> rfl
      exact hlen ▸ (List.getElem?_eq_some_iff.mp h).1
    cases bank with
    | ifram0 =>
      simp only [Bank.reservedPageRange] at hpage
      interval_cases page <;> exact absurd h (by decide)
    | ifram1 =>
      simp only [start, Bank.initialTable, Bank.reservedPageRange, getElem?_setRange] at h hpage
      simp [hpage, show page < 1 + 31 by omega] at h
  held := nofun

theorem bankOf_addr {start : Nat} (h : start < memLen / pageSize) :
    bankOf (bank.base + start * pageSize) = some (bank, start * pageSize) := by
  have hlt : start * pageSize < memLen := by
    simp only [memLen, pageSize] at h ⊢
    omega
  cases bank with
  | ifram0 => simp [bankOf, Bank.base, hlt]
  | ifram1 =>
    simp only [memLen, pageSize] at hlt
    simp [bankOf, Bank.base, memLen, pageSize]
    omega

theorem setPages_none_of_free {allocs : Allocs} {bank : Bank}
    (h : Free (allocs bank) first count) : setPages allocs bank first count none = allocs := by
  funext b
  apply List.ext_getElem?
  intro i
  rw [getElem?_setPages]
  split
  · rename_i hi
    rw [hi.1, h i hi.2.1 hi.2.2, Option.map_some]
  · rfl

variable {s : Server}

theorem Inv.map (hinv : Inv s) (sender size requestedBank : Nat) :
    (Meant s (.map sender size requestedBank) → ∃ s', s.serve (.map sender size requestedBank) = some s' ∧ Inv s') ∧
    (¬ Meant s (.map sender size requestedBank) → s.serve (.map sender size requestedBank) = none) := by
  have hbanks : ∀ bank : Bank, bank ∈ [Bank.ifram0, Bank.ifram1] := by rintro (_ | _) <;> decide
  rcases allocIn_cases sender size requestedBank s.allocs [.ifram0, .ifram1] with
    ⟨hrun, hsize, bank, -, hreq, hdense⟩ | ⟨hmeant, hrun | ⟨bank, first, hrun, hfree, hpos⟩⟩
  · refine ⟨fun h => absurd (h hsize bank hreq) hdense, fun _ => ?_⟩
    simp [serve, mapIfram, bind_apply, hrun]
  · refine ⟨fun _ => ⟨s, ?_, hinv⟩, fun h => absurd (fun hs bank => hmeant hs bank (hbanks bank)) h⟩
    simp [serve, mapIfram, bind_apply, hrun, granted]
  · have hpages : 1 ≤ sizePages size := by
      have := mt sizePages_eq_zero.mp (show size ≠ 0 by omega)
      omega
    have hsome : ∀ page, first ≤ page → page < first + sizePages size → page < memLen / pageSize := by
      intro page hlo hhi
      rw [← hinv.length bank]
      exact (List.getElem?_eq_some_iff.mp (hfree page hlo hhi)).1
    have hgranted : granted size (bank.base + first * pageSize) = some ⟨bank, first, sizePages size⟩ := by
      rw [granted, if_neg (by omega), bankOf_addr bank (hsome first (by omega) (by omega))]
      simp [pageSize]
    refine ⟨fun _ => ⟨⟨setPages s.allocs bank first (sizePages size) (some sender), s.live ++ [⟨bank, first, sizePages size⟩]⟩,
      ?_, ?_⟩, fun h => absurd (fun hs bank => hmeant hs bank (hbanks bank)) h⟩
    · simp [serve, mapIfram, bind_apply, hrun, hgranted]
    · -- the new allocation was free, so that it is away from what is held and from what is reserved
      have hnew : ∀ b page, (setPages s.allocs bank first (sizePages size) (some sender) b)[page]? = some none →
          (s.allocs b)[page]? = some none ∧ ¬ (b = bank ∧ first ≤ page ∧ page < first + sizePages size) := by
        intro b page hpage
        rw [getElem?_setPages] at hpage
        split at hpage
        · obtain ⟨_, _, h⟩ := Option.map_eq_some_iff.mp hpage
          exact absurd h (by nofun)
        · exact ⟨hpage, ‹_›⟩
      have hlast := hsome (first + sizePages size - 1) (by omega) (by omega)
      have hunreserved : first + sizePages size ≤ bank.reservedPageRange.1 := by
        by_contra hlt
        exact hinv.reserved bank (first + sizePages size - 1) (by omega) (hfree _ (by omega) (by omega))
      have hall {P : Alloc → Prop} (hold : ∀ a ∈ s.live, P a) (hadd : P ⟨bank, first, sizePages size⟩) :
          ∀ a ∈ s.live ++ [⟨bank, first, sizePages size⟩], P a :=
        List.forall_mem_append.mpr ⟨hold, List.forall_mem_singleton.mpr hadd⟩
      refine ⟨⟨hall hinv.sound.inside (show first + sizePages size ≤ _ by omega),
        hall hinv.sound.unreserved hunreserved, ?_⟩, hall hinv.pages hpages, ?_, ?_,
        hall (fun a ha page hlo hhi h => ?_) fun page hlo hhi h => ?_⟩
      · rw [List.pairwise_append]
        refine ⟨hinv.sound.apart, List.pairwise_singleton _ _, fun a ha b hb hbank => ?_⟩
        rw [List.mem_singleton.mp hb] at hbank ⊢
        show a.start + a.pages ≤ first ∨ first + sizePages size ≤ a.start
        by_contra hoverlap
        have hheld := hinv.held a ha (max a.start first) (by omega)
          (by have := hinv.pages a ha; omega)
        rw [hbank] at hheld
        exact hheld (hfree _ (by omega) (by omega))
      · intro b
        exact (length_setPages ..).trans (hinv.length b)
      · intro b page hpage h
        exact hinv.reserved b page hpage (hnew b page h).1
      · exact hinv.held a ha page hlo hhi (hnew a.bank page h).1
      · exact (hnew bank page h).2 ⟨rfl, hlo, hhi⟩

/-- The first page of what an unmap that is meant gives back is the first page of the bank. -/
theorem Inv.named (hinv : Inv s) {mappedSize physAddr offset : Nat} {bank : Bank}
    (hbank : bankOf physAddr = some (bank, offset)) (hle : offset + sizePages mappedSize ≤ memLen / pageSize)
    {a : Alloc} (ha : a ∈ s.live) (hnamed : a.named mappedSize physAddr) :
    a.bank = bank ∧ a.start = offset ∧ a.pages = sizePages mappedSize := by
  simp only [Alloc.named, Bool.and_eq_true, beq_iff_eq] at hnamed
  have hinside := hinv.sound.inside a ha
  have hpages := hinv.pages a ha
  have haddr := bankOf_addr a.bank (show a.start < memLen / pageSize by omega)
  rw [Alloc.addr] at hnamed
  rw [hnamed.1, hbank, Option.some_inj, Prod.mk.injEq] at haddr
  refine ⟨haddr.1.symm, ?_, hnamed.2⟩
  have := haddr.2
  simp only [memLen, pageSize] at this hle
  omega

theorem Inv.unmap (hinv : Inv s) (mappedSize physAddr : Nat) (h : Meant s (.unmap mappedSize physAddr)) :
    ∃ s', s.serve (.unmap mappedSize physAddr) = some s' ∧ FreesExactly s s' (.unmap mappedSize physAddr) ∧ Inv s' := by
  obtain ⟨bank, offset, hbank, hle, hwhat⟩ := h
  have hserve : s.serve (.unmap mappedSize physAddr) = some ⟨setPages s.allocs bank offset (sizePages mappedSize) none,
        s.live.filter fun a => !a.named mappedSize physAddr⟩ := by
    simp [serve, unmapIfram, hbank, bind_apply, Prog.assert, hinv.length bank, hle]
  refine ⟨_, hserve, ?_⟩
  by_cases hnone : ∀ a ∈ s.live, a.named mappedSize physAddr = false
  · -- nothing is given back, and the pages are free already
    have hfree : Free (s.allocs bank) offset (sizePages mappedSize) := by
      rcases hwhat with ⟨a, ha, hnamed⟩ | hfree
      · rw [hnone a ha] at hnamed
        exact absurd hnamed (by simp)
      · exact hfree
    have hlive : (s.live.filter fun a => !a.named mappedSize physAddr) = s.live :=
      List.filter_eq_self.mpr fun a ha => by rw [hnone a ha]; rfl
    rw [setPages_none_of_free hfree, hlive]
    refine ⟨⟨fun a ha hnamed => ?_, fun _ _ _ h => h⟩, hinv⟩
    rw [hnone a ha] at hnamed
    exact absurd hnamed (by simp)
  · obtain ⟨a, ha, hnamed⟩ : ∃ a ∈ s.live, a.named mappedSize physAddr = true := by
      simpa using hnone
    obtain ⟨habank, hastart, hapages⟩ := hinv.named hbank hle ha hnamed
    have hfreed : ∀ b (page : Nat), (setPages s.allocs bank offset (sizePages mappedSize) none b)[page]? = some none →
        (s.allocs b)[page]? = some none ∨ a.Covers b page := by
      intro b page hpage
      rw [getElem?_setPages] at hpage
      split at hpage
      · rename_i hin
        exact .inr ⟨hin.1.trans habank.symm, by omega, by omega⟩
      · exact .inl hpage
    refine ⟨⟨fun b hb hbnamed => ?_, fun h => absurd (h a ha) (by simp [hnamed])⟩,
      ⟨⟨?_, ?_, ?_⟩, ?_, ?_, ?_, ?_⟩⟩
    · obtain ⟨hbbank, hbstart, hbpages⟩ := hinv.named hbank hle hb hbnamed
      rw [hbbank, hbstart, hbpages]
    · intro b hb
      exact hinv.sound.inside b (List.mem_filter.mp hb).1
    · intro b hb
      exact hinv.sound.unreserved b (List.mem_filter.mp hb).1
    · exact hinv.sound.apart.filter _
    · intro b hb
      exact hinv.pages b (List.mem_filter.mp hb).1
    · intro b
      exact (length_setPages ..).trans (hinv.length b)
    · intro b page hpage h
      rcases hfreed b page h with h | ⟨rfl, hlo, hhi⟩
      · exact hinv.reserved b page hpage h
      · have := hinv.sound.unreserved a ha
        omega
    · intro b hb page hlo hhi h
      obtain ⟨hb, hother⟩ := List.mem_filter.mp hb
      rcases hfreed b.bank page h with h | ⟨hsame, hlo', hhi'⟩
      · exact hinv.held b hb page hlo hhi h
      · have hne : a ≠ b := by
          rintro rfl
          simp [hnamed] at hother
        have := hinv.sound.apart.forall ha hb hne hsame.symm
        omega

theorem Inv.meant_of_unmap {s' : Server} (hinv : Inv s) {mappedSize physAddr : Nat}
    (hserve : s.serve (.unmap mappedSize physAddr) = some s')
    (hfrees : FreesExactly s s' (.unmap mappedSize physAddr)) : Meant s (.unmap mappedSize physAddr) := by
  cases hbank : bankOf physAddr with
  | none => simp [serve, unmapIfram, hbank] at hserve
  | some found =>
    obtain ⟨bank, offset⟩ := found
    by_cases hle : offset + sizePages mappedSize ≤ memLen / pageSize
    · refine ⟨bank, offset, hbank, hle, ?_⟩
      by_cases hnamed : ∃ a ∈ s.live, a.named mappedSize physAddr
      · exact .inl hnamed
      · refine .inr fun page hlo hhi => hfrees.2 (fun a ha => ?_) bank page ?_
        · simpa using fun h => hnamed ⟨a, ha, h⟩
        · simp [serve, unmapIfram, hbank, bind_apply, Prog.assert, hinv.length bank, hle] at hserve
          have hpage : page < (s.allocs bank).length := by
            rw [hinv.length bank]
            omega
          simp [← hserve, getElem?_setPages, hlo, hhi, List.getElem?_eq_getElem hpage]
    · simp [serve, unmapIfram, hbank, bind_apply, Prog.assert, hinv.length bank, hle] at hserve

theorem Inv.step (hinv : Inv s) (m : Message) :
    (Meant s m → ∃ s', s.serve m = some s' ∧ FreesExactly s s' m ∧ Inv s') ∧
    ∀ s', s.serve m = some s' → FreesExactly s s' m → Meant s m := by
  cases m with
  | map sender size requestedBank =>
    obtain ⟨hserved, hpanic⟩ := hinv.map sender size requestedBank
    constructor
    · intro hmeant
      obtain ⟨s', hserve, hkept⟩ := hserved hmeant
      exact ⟨s', hserve, trivial, hkept⟩
    · intro s' hserve _
      by_contra hnot
      rw [hpanic hnot] at hserve
      cases hserve
  | unmap mappedSize physAddr =>
    exact ⟨hinv.unmap mappedSize physAddr, fun s' => hinv.meant_of_unmap⟩

/-- From a state that the invariant describes, the messages are served safely exactly if each of them is
meant. -/
theorem safe_iff (hinv : Inv s) (messages : List Message) : Safe s messages ↔ AllMeant s messages := by
  induction messages generalizing s with
  | nil => exact ⟨fun _ => trivial, fun _ => hinv.sound⟩
  | cons m rest ih =>
    obtain ⟨hserved, hmeant⟩ := hinv.step m
    constructor
    · rintro ⟨-, s', hserve, hfrees, hsafe⟩
      obtain ⟨next, hnext, -, hkept⟩ := hserved (hmeant s' hserve hfrees)
      refine ⟨hmeant s' hserve hfrees, fun s'' hs'' => ?_⟩
      obtain rfl : next = s' := Option.some.inj (hnext.symm.trans hserve)
      obtain rfl : next = s'' := Option.some.inj (hnext.symm.trans hs'')
      exact (ih hkept).mp hsafe
    · rintro ⟨hm, hrest⟩
      obtain ⟨next, hnext, hfrees, hkept⟩ := hserved hm
      exact ⟨hinv.sound, next, hnext, hfrees, (ih hkept).mpr (hrest next hnext)⟩

/-- For every sequence of messages, the server does not panic, hands out pages that are apart, and
frees what is given back, if and only if each message is meant. -/
theorem safe_start_iff (messages : List Message) :
    Safe start messages ↔ AllMeant start messages :=
  safe_iff inv_start messages

/-- Two clients get a page each, and the second one gives its page back. -/
theorem not_safe_second_page :
    ¬ Safe start [.map 3 4096 0, .map 4 4096 0, .unmap 4096 0x50001000] := by
  rintro ⟨-, s1, h1, -, -, s2, h2, -, -, s3, h3, -⟩
  have hpanic : (([.map 3 4096 0, .map 4 4096 0, .unmap 4096 0x50001000] : List Message).foldlM
      serve start).isNone := by decide
  simp [h1, h2, h3] at hpanic

end BaochipXous.Ifram
