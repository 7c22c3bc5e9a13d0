import BaochipXous.FastSpace

/-!
The virtual-to-physical maps of the open bases, the page table in flash and the free-space pool. A
new pool is made of all pages that neither the blocks of the open bases nor the old pool show as
used. What a basis holds is in its map while it is open and in the page table while it is closed: in
this sense no page is held twice, and none that is held is in the pool.
-/

namespace BaochipXous.FastSpace

open Prog Labelled Function

/-- What the keys of a basis are derived from. -/
structure BasisId where
  name : Nat
  password : Nat
  deriving DecidableEq

structure Entry where
  vaddr : Nat
  pp : PhysPage
  deriving DecidableEq

structure Basis where
  id : BasisId
  v2p : List Entry

def Basis.name (b : Basis) : Nat := b.id.name

/-- The page table in flash has a block for each page, which decrypts under the key of one basis at
most. -/
abbrev Table := Nat → Option (BasisId × Nat)

structure Store where
  space : Space
  table : Table
  /-- The open bases. -/
  cache : List Basis

open Store

abbrev StoreM := Prog Empty Store

def onSpace {α : Type} (m : SpaceM α) : StoreM α := zoom space (fun d space => { d with space }) m

variable (d : Store)

def Store.modifyMap (name : Nat) (f : List Entry → List Entry) : Store :=
  { d with cache := d.cache.map fun b => if b.name = name then { b with v2p := f b.v2p } else b }

def Store.basis? (name : Nat) : Option Basis := Keyed.get Basis.name d.cache name

def setPage (vaddr : Nat) (pp : PhysPage) (v2p : List Entry) : List Entry :=
  v2p.map fun e => if e.vaddr = vaddr then ⟨vaddr, pp⟩ else e

/-- `pt_erase`: random data does not decrypt to an entry of any basis. -/
def ptErase (table : Table) (page : Nat) : Table := update table page none

variable (id : BasisId)

def ptPatchMapping (table : Table) (e : Entry) : Table :=
  update table e.pp.number (some (id, e.vaddr))

/-- The table after `pt_sync`: the entries that are not valid any more are erased before the new ones
are written. -/
def Basis.syncedTable (b : Basis) (table : Table) : Table :=
  let erased := (b.v2p.filter fun e => !e.pp.valid).foldl (fun table e => ptErase table e.pp.number) table
  (b.v2p.filter fun e => e.pp.valid && !e.pp.clean).foldl (ptPatchMapping b.id) erased

theorem ptErase_apply (table : Table) (page page' : Nat) :
    ptErase table page page' = if page' = page then none else table page' := update_apply ..

theorem ptPatchMapping_apply (table : Table) (e : Entry) (page : Nat) :
    ptPatchMapping id table e page = if page = e.pp.number then some (id, e.vaddr) else table page := update_apply ..

def syncedMap (v2p : List Entry) : List Entry :=
  (v2p.filter fun e => e.pp.valid).map fun e => { e with pp := { e.pp with clean := true } }

def Store.ptSync (b : Basis) : Store :=
  modifyMap { d with table := b.syncedTable d.table } b.name syncedMap

/-- What the data of two pages with the same virtual address says. -/
inductive Conflict where
  | keep
  | newer
  | bogus

abbrev Conflicts := Nat → Nat → Conflict

def ptEntries : Nat := 1024

def Space.resolvePpJournal (s : Space) (pp : PhysPage) : PhysPage :=
  match Keyed.get PhysPage.number s.cache pp.number with
  | some known => if pp.journal < known.journal then { pp with journal := known.journal } else pp
  | none => pp

def foundPage (page : Nat) : PhysPage :=
  { number := page, clean := true, valid := true, state := .used, journal := 0 }

variable (conflicts : Conflicts)

def Store.scanBlock (map : List Entry) (page : Nat) : List Entry :=
  match d.table page with
  | none => map
  | some (owner, vaddr) =>
    if owner = id then
      match Keyed.get Entry.vaddr map vaddr with
      | none => Keyed.insert Entry.vaddr map ⟨vaddr, d.space.resolvePpJournal (foundPage page)⟩
      | some prev =>
        match conflicts prev.pp.number page with
        | .keep => map
        | .newer => Keyed.replace Entry.vaddr map ⟨vaddr, foundPage page⟩
        | .bogus => Keyed.replace Entry.vaddr map ⟨vaddr, d.space.resolvePpJournal (foundPage page)⟩
    else map

def Store.ptScanKey : List Entry :=
  (List.range ptEntries).foldl (d.scanBlock id conflicts) []

def Store.scanned : List Nat :=
  d.cache.flatMap fun b => (d.ptScanKey b.id conflicts).map fun e => e.pp.number

def rootVaddr : Nat := 4064

/-- `v2p_map.entry(vaddr).or_insert_with(..)`: a page for a virtual address that has none. -/
def reserve (name vaddr drawLog draw : Nat) : StoreM Unit := do
  match (← get).basis? name with
  | none => pure ()
  | some b =>
    match Keyed.get Entry.vaddr b.v2p vaddr with
    | some _ => pure ()
    | none =>
      match ← onSpace (tryFastSpaceAlloc drawLog draw) with
      | none => halt
      | some ap => modify (·.modifyMap name (Keyed.replace Entry.vaddr · ⟨vaddr, { ap with valid := true }⟩))

/-- `v2p_map.insert(vaddr, pp)` for a new large key: an entry that is there is lost. -/
def place (name vaddr drawLog draw : Nat) : StoreM Unit := do
  match (← get).basis? name with
  | none => pure ()
  | some _ =>
    match ← onSpace (tryFastSpaceAlloc drawLog draw) with
    | none => pure ()
    | some pp => do
      assert pp.valid
      modify (·.modifyMap name (Keyed.replace Entry.vaddr · ⟨vaddr, pp⟩))

/-- Give a page back; its entry stays, not valid any more, until the next sync. -/
def giveBack (name drawLog : Nat) (e : Entry) : StoreM Unit := do
  let pp ← onSpace (fastSpaceFree drawLog e.pp)
  modify (·.modifyMap name (setPage e.vaddr pp))

def release (name vaddr drawLog : Nat) : StoreM Unit := do
  match ((← get).basis? name).bind fun b => Keyed.get Entry.vaddr b.v2p vaddr with
  | none => pure ()
  | some e => do
    assert e.pp.valid
    giveBack name drawLog e

/-- The free of a page behind the end of a truncated key: the entry goes at once. -/
def cut (name vaddr drawLog : Nat) : StoreM Unit := do
  match ((← get).basis? name).bind fun b => Keyed.get Entry.vaddr b.v2p vaddr with
  | none => pure ()
  | some e => do
    modify (·.modifyMap name (Keyed.remove Entry.vaddr · vaddr))
    assert e.pp.valid
    modify fun d => { d with table := ptErase d.table e.pp.number }
    let _ ← onSpace (fastSpaceFree drawLog e.pp)
    pure ()

def syncTable (name : Nat) : StoreM Unit := do
  match (← get).basis? name with
  | none => pure ()
  | some b => modify (·.ptSync b)

/-- `basis_create`, for which a log block and a page were ensured. -/
def basisCreate (drawLog draw : Nat) : StoreM Unit := do
  if (← get).ptScanKey id conflicts = [] then
    match ← onSpace (tryFastSpaceAlloc drawLog draw) with
    | none => pure ()
    | some pp => modify fun d => { d with table := ptPatchMapping id d.table ⟨rootVaddr, pp⟩ }

def basisDelete (name : Nat) (drawLog : Entry → Nat) : StoreM Unit := do
  match (← get).basis? name with
  | none => pure ()
  | some b => do
    forEach b.v2p fun e => giveBack name (drawLog e) e
    syncTable name

def basisUnmount (name : Nat) : StoreM Unit := do
  syncTable name
  modify fun d => { d with cache := Keyed.remove Basis.name d.cache name }

/-- `basis_unlock` and `basis_add`. An open basis of the name is unmounted in between, when the scan
was made. -/
def basisOpen : StoreM Unit := do
  let map ← gets (·.ptScanKey id conflicts)
  when (Keyed.get Entry.vaddr map rootVaddr).isSome do
    basisUnmount id.name
    modify fun d => { d with cache := d.cache ++ [⟨id, map⟩] }

def ensure (total : Nat) (conflicts : Conflicts) (draws : Draws) (pages : Nat) : StoreM Unit :=
  modify fun d => { d with
    space := (d.space.ensureFastSpaceAlloc total (d.scanned conflicts) draws pages).2 }

/-- Power comes back: the pool is read, and no basis is open. -/
def reboot (draw : Nat) : StoreM Unit :=
  modify fun d => { d with space := d.space.fastSpaceRead draw, cache := [] }

inductive StoreEvent where
  | reserve (name vaddr drawLog draw : Nat)
  | place (name vaddr drawLog draw : Nat)
  | release (name vaddr drawLog : Nat)
  | cut (name vaddr drawLog : Nat)
  | syncTable (name : Nat)
  | basisCreate (id : BasisId) (conflicts : Conflicts) (drawLog draw : Nat)
  | basisDelete (name : Nat) (drawLog : Entry → Nat)
  | basisOpen (id : BasisId) (conflicts : Conflicts)
  | basisUnmount (name : Nat)
  | ensure (conflicts : Conflicts) (draws : Draws) (pages : Nat)
  | reboot (draw : Nat)

def exec (total : Nat) : StoreEvent → StoreM Unit
  | .reserve name vaddr drawLog draw => reserve name vaddr drawLog draw
  | .place name vaddr drawLog draw => place name vaddr drawLog draw
  | .release name vaddr drawLog => release name vaddr drawLog
  | .cut name vaddr drawLog => cut name vaddr drawLog
  | .syncTable name => syncTable name
  | .basisCreate id conflicts drawLog draw => basisCreate id conflicts drawLog draw
  | .basisDelete name drawLog => basisDelete name drawLog
  | .basisOpen id conflicts => basisOpen id conflicts
  | .basisUnmount name => basisUnmount name
  | .ensure conflicts draws pages => ensure total conflicts draws pages
  | .reboot draw => reboot draw

/-- A valid entry for the virtual address refers to the page. -/
def Mapped (v2p : List Entry) (vaddr page : Nat) : Prop :=
  ∃ e ∈ v2p, e.vaddr = vaddr ∧ e.pp.valid = true ∧ e.pp.number = page

def Store.Refers (page : Nat) : Prop := ∃ b ∈ d.cache, ∃ vaddr, Mapped b.v2p vaddr page

/-- No two virtual pages of the open bases share a page. -/
def Store.NoSharing : Prop :=
  ∀ b ∈ d.cache, ∀ b' ∈ d.cache, ∀ vaddr vaddr' page, Mapped b.v2p vaddr page → Mapped b'.v2p vaddr' page →
    b = b' ∧ vaddr = vaddr'

/-- What a basis holds at a virtual address: by its map if it is open, else by the page table. -/
def Store.Holds (o : BasisId × Nat) (page : Nat) : Prop :=
  (∃ b ∈ d.cache, b.id = o.1 ∧ Mapped b.v2p o.2 page) ∨ ((∀ b ∈ d.cache, b.id ≠ o.1) ∧ d.table page = some o)

structure Store.Inv : Prop where
  names : Keyed.Distinct Basis.name d.cache
  vaddrs : ∀ b ∈ d.cache, Keyed.Distinct Entry.vaddr b.v2p
  log : Agree ⟨d.space, []⟩
  ledger : Ledger ptEntries (d.space.hasInPool · = true) d.Holds
  /-- The entries that are taken for synced have their block. -/
  written : ∀ b ∈ d.cache, ∀ e ∈ b.v2p, e.pp.valid = true → e.pp.clean = true →
    d.table e.pp.number = some (b.id, e.vaddr)
  /-- A block of an open basis is one of an entry in its map, valid or not. -/
  listed : ∀ b ∈ d.cache, ∀ page vaddr, d.table page = some (b.id, vaddr) →
    ∃ e ∈ b.v2p, e.vaddr = vaddr ∧ e.pp.number = page

/-- The states in which a step does no harm. A new pool is made when the valid entries of the open
bases are synced and no closed basis has a block. No entry that is not valid any more is left where
its block would be lost sight of, and none is synced when its page is referred to again. -/
def Safe : StoreEvent → Prop
  | .place name vaddr _ _ => ∀ b, d.basis? name = some b → ∀ e ∈ b.v2p, e.vaddr = vaddr →
      d.table e.pp.number ≠ some (b.id, vaddr)
  | .syncTable name | .basisUnmount name => ∀ b, d.basis? name = some b → ∀ e ∈ b.v2p,
      e.pp.valid = true ∨ ¬ d.Refers e.pp.number
  | .basisCreate id _ _ _ => ∀ b ∈ d.cache, b.id ≠ id
  | .basisDelete name _ => ∀ b, d.basis? name = some b → ∀ e ∈ b.v2p, e.pp.valid = true
  | .basisOpen id _ => ∀ b, d.basis? id.name = some b → ∀ e ∈ b.v2p,
      e.pp.valid = true ∧ e.pp.clean = true
  | .ensure _ _ pages => d.space.fastSpaceHasPages (pages + 1) = true ∨
      ((∀ b ∈ d.cache, ∀ e ∈ b.v2p, e.pp.valid = true → e.pp.clean = true) ∧
        ∀ page id vaddr, d.table page = some (id, vaddr) → ∃ b ∈ d.cache, b.id = id)
  | .reboot _ => ∀ b ∈ d.cache, ∀ e ∈ b.v2p,
      e.pp.valid = true ∨ d.table e.pp.number ≠ some (b.id, e.vaddr)
  | _ => True

section

variable {s s' : Space} {drawLog draw n : Nat} {pp : PhysPage}

theorem Agree.forget {t : Traced} (h : Agree t) : Agree ⟨t.space, []⟩ :=
  ⟨h.distinct, h.place_ok, h.out_of_pool, h.in_pool, nofun⟩

theorem exists_of_hasInPool (h : s.hasInPool n = true) : ∃ c ∈ s.cache, c.number = n ∧ c.inPool = true := by
  rw [Space.hasInPool] at h
  cases hc : Keyed.get PhysPage.number s.cache n with
  | none => simp [hc] at h
  | some c => exact ⟨c, Keyed.get_mem hc, Keyed.get_key hc, by simpa [hc] using h⟩

theorem hasInPool_of_mem (h : Keyed.Distinct PhysPage.number s.cache) (hpp : pp ∈ s.cache)
    (hpool : pp.inPool = true) : s.hasInPool pp.number = true := by
  rw [Space.hasInPool, h.get_eq hpp]
  exact hpool

theorem alloc_pool {answer : Option PhysPage} (h : Agree ⟨s, []⟩)
    (hok : tryFastSpaceAlloc drawLog draw s = .ok answer s') :
    Agree ⟨s', []⟩ ∧ (∀ n, s'.hasInPool n = true → s.hasInPool n = true) ∧
      ∀ pp, answer = some pp → pp.valid = true ∧ pp.clean = false ∧ s.hasInPool pp.number = true ∧
        s'.hasInPool pp.number = false := by
  have hagree : ∃ history, Traced.step ⟨s, []⟩ (.alloc drawLog draw) = some ⟨s', history⟩ := by
    cases answer <;> exact ⟨_, by rw [Traced.step, hok]⟩
  obtain ⟨_, hstep⟩ := hagree
  refine ⟨(h.step rfl hstep).forget, ?_⟩
  rcases tryFastSpaceAlloc_cases s drawLog draw with ⟨-, hnone⟩ | ⟨place, c, -, hc, hsome⟩
  · cases hnone.symm.trans hok
    exact ⟨fun _ hn => hn, by simp⟩
  · obtain ⟨hmem, havailable⟩ := List.mem_filter.mp hc
    obtain ⟨heq, hspace⟩ := Outcome.ok.inj (hsome.symm.trans hok)
    rw [← hspace]
    refine ⟨fun n hn => ?_, fun pp hpp => ?_⟩
    · rw [Space.hasInPool, Keyed.get_remove] at hn
      split at hn
      · contradiction
      · exact hn
    · cases heq.trans hpp
      have hpool := hasInPool_of_mem h.distinct hmem (PhysPage.inPool_of_available havailable)
      refine ⟨rfl, rfl, hpool, ?_⟩
      rw [Space.hasInPool, Keyed.get_remove]
      exact congrArg (Option.any PhysPage.inPool) (if_pos rfl)

theorem free_pool {pp' : PhysPage} (h : Agree ⟨s, []⟩) (hout : s.hasInPool pp.number = false)
    (hok : fastSpaceFree drawLog pp s = .ok pp' s') :
    Agree ⟨s', []⟩ ∧ (∀ n, s'.hasInPool n = true → n = pp.number ∨ s.hasInPool n = true) ∧
      pp'.valid = false ∧ pp'.number = pp.number := by
  have hstep : Traced.step ⟨s, []⟩ (.free drawLog pp) = some ⟨s', [pp.freed]⟩ := by
    rw [Traced.step, hok]
    rfl
  refine ⟨(h.step (by simpa [Traced.allows] using hout) hstep).forget, ?_⟩
  rcases fastSpaceFree_cases s drawLog pp with ⟨-, hpanic⟩ | ⟨place, -, hsome⟩
  · cases hpanic.symm.trans hok
  · cases hsome.symm.trans hok
    refine ⟨fun n hn => ?_, rfl, rfl⟩
    by_cases heq : n = pp.number
    · exact .inl heq
    · have hne : pp.freed.number ≠ n := Ne.symm heq
      rw [Space.hasInPool, Keyed.get_insert, Keyed.get_remove, if_neg heq, if_neg hne, Option.or_none] at hn
      exact .inr hn

/-- The pool that is read back from a new record has only pages of the record. -/
theorem exists_of_hasInPool_write {dest : Nat} {pool : List PhysPage}
    (h : ((s.fastSpaceWrite (dest % (fscbPages - 1)) pool).fastSpaceRead draw).hasInPool n = true) :
    ∃ c ∈ pool, c.number = n ∧ c.inPool = true := by
  obtain ⟨c, hc, hnumber, hpool⟩ := exists_of_hasInPool h
  rw [Space.fastSpaceRead, replay_fastSpaceWrite] at hc
  rcases Keyed.mem_of_mem_foldl_insert hc with hmem | hnone
  · exact ⟨c, (List.mem_filter.mp hmem).1, hnumber, hpool⟩
  · contradiction

end

/-- No virtual page of the basis has two blocks. -/
def Store.Once : Prop :=
  ∀ page page' vaddr, d.table page = some (id, vaddr) → d.table page' = some (id, vaddr) → page = page'

/-- What a scan of the first blocks has found: synced entries of the basis, one for a virtual
address, and those of all blocks if no virtual page has two. -/
structure Found (n : Nat) (map : List Entry) : Prop where
  distinct : Keyed.Distinct Entry.vaddr map
  inTable : ∀ e ∈ map, (e.pp.valid = true ∧ e.pp.clean = true) ∧ d.table e.pp.number = some (id, e.vaddr)
  complete : d.Once id → ∀ page < n, ∀ vaddr, d.table page = some (id, vaddr) →
    ∃ e ∈ map, e.vaddr = vaddr ∧ e.pp.number = page

section

variable {d : Store} {id : BasisId} {conflicts : Conflicts} {n : Nat} {map : List Entry}

theorem Found.replace (h : Found d id n map) {vaddr : Nat} (htable : d.table n = some (id, vaddr)) (pp : PhysPage)
    (hpp : (pp.valid = true ∧ pp.clean = true) ∧ pp.number = n) :
    Found d id (n + 1) (Keyed.replace Entry.vaddr map ⟨vaddr, pp⟩) := by
  obtain ⟨hdistinct, hin, hcomplete⟩ := h
  refine ⟨hdistinct.replace _, ?_, fun honce page hpage v hv => ?_⟩
  · grind [Keyed.replace, Keyed.remove]
  · by_cases hsame : v = vaddr
    · exact ⟨⟨vaddr, pp⟩, List.mem_cons_self, hsame.symm, hpp.2.trans (honce n page v (hsame ▸ htable) hv)⟩
    · grind [Keyed.replace, Keyed.remove]

theorem Space.resolvePpJournal_foundPage (s : Space) (page : Nat) :
    ((s.resolvePpJournal (foundPage page)).valid = true ∧ (s.resolvePpJournal (foundPage page)).clean = true) ∧
      (s.resolvePpJournal (foundPage page)).number = page := by
  rw [resolvePpJournal]
  split
  · split <;> exact ⟨⟨rfl, rfl⟩, rfl⟩
  · exact ⟨⟨rfl, rfl⟩, rfl⟩

theorem Found.scanBlock (h : Found d id n map) : Found d id (n + 1) (d.scanBlock id conflicts map n) := by
  -- a block that is not one of the basis does not matter, nor one that the map has
  have hskip : (d.Once id → ∀ vaddr, d.table n = some (id, vaddr) → ∃ e ∈ map, e.vaddr = vaddr ∧ e.pp.number = n) →
      Found d id (n + 1) map := by
    intro hknown
    refine ⟨h.distinct, h.inTable, fun honce page hpage vaddr htable => ?_⟩
    rcases Nat.lt_succ_iff_lt_or_eq.mp hpage with hlt | rfl
    · exact h.complete honce page hlt vaddr htable
    · exact hknown honce vaddr htable
  have hresolved := d.space.resolvePpJournal_foundPage n
  rw [Store.scanBlock]
  split
  · exact hskip (by grind)
  · rename_i owner vaddr htable
    split
    · rename_i howner
      subst howner
      cases hprev : Keyed.get Entry.vaddr map vaddr with
      | none =>
        have hinsert : Keyed.insert Entry.vaddr map ⟨vaddr, d.space.resolvePpJournal (foundPage n)⟩ =
            Keyed.replace Entry.vaddr map ⟨vaddr, d.space.resolvePpJournal (foundPage n)⟩ := by
          rw [Keyed.insert, hprev, Keyed.replace, Keyed.remove_eq_self (Keyed.get_eq_none.mp hprev)]
          rfl
        simp only [hinsert]
        exact h.replace htable _ hresolved
      | some prev =>
        have hmem := Keyed.get_mem hprev
        have hkey := Keyed.get_key hprev
        have hold := h.inTable prev hmem
        simp only
        split
        · exact hskip (by grind [Store.Once])
        · exact h.replace htable _ ⟨⟨rfl, rfl⟩, rfl⟩
        · exact h.replace htable _ hresolved
    · exact hskip (by grind)

variable (d id conflicts)

theorem ptScanKey_found : Found d id ptEntries (d.ptScanKey id conflicts) := by
  rw [ptScanKey]
  induction ptEntries with
  | zero => exact ⟨List.nodup_nil, nofun, nofun⟩
  | succ n ih =>
    rw [List.range_succ, List.foldl_append]
    exact ih.scanBlock

-- what a scan gives is known from here on; it is not to be unfolded over the whole table
attribute [irreducible] ptScanKey

theorem Found.pages_nodup {d : Store} (h : Found d id n map) : (map.map fun e => e.pp.number).Nodup := by
  have hvaddr : map.Pairwise fun e e' => e.vaddr ≠ e'.vaddr := List.pairwise_map.mp h.distinct
  have htable := h.inTable
  exact List.pairwise_map.mpr (hvaddr.imp_of_mem (by grind))

theorem Store.scanned_nodup (hnames : Keyed.Distinct Basis.name d.cache) : (d.scanned conflicts).Nodup := by
  rw [scanned, List.nodup_flatMap]
  refine ⟨fun b _ => (ptScanKey_found d b.id conflicts).pages_nodup, ?_⟩
  have hpairs : d.cache.Pairwise fun b b' => b.name ≠ b'.name := List.pairwise_map.mp hnames
  refine hpairs.imp fun {b b'} hne page hpage hpage' => ?_
  have htable := (ptScanKey_found d b.id conflicts).inTable
  have htable' := (ptScanKey_found d b'.id conflicts).inTable
  grind [Basis.name]

theorem mem_generateUsedMap (s : Space) {scanned : List Nat} {page : Nat} (h : page ∈ scanned) :
    page ∈ s.generateUsedMap scanned := by
  rw [Space.generateUsedMap]
  generalize s.cache.filter _ = entries
  induction entries generalizing scanned with
  | nil => exact h
  | cons pp rest ih =>
    rw [List.foldl_cons]
    split
    · exact ih h
    · exact ih (List.mem_cons_of_mem _ h)

end

section

variable {d : Store} (h : d.Inv) {b b' : Basis}
include h

theorem Store.Inv.basis_eq (hb : b ∈ d.cache) (hb' : b' ∈ d.cache) (hname : b.name = b'.name) : b = b' := by
  have hget := h.names.get_eq hb
  rw [hname, h.names.get_eq hb'] at hget
  exact (Option.some.inj hget).symm

theorem Store.Inv.entry_eq {e e' : Entry} (hb : b ∈ d.cache) (he : e ∈ b.v2p) (he' : e' ∈ b.v2p)
    (hvaddr : e.vaddr = e'.vaddr) : e = e' := by
  have hget := (h.vaddrs b hb).get_eq he
  rw [hvaddr, (h.vaddrs b hb).get_eq he'] at hget
  exact (Option.some.inj hget).symm

theorem Store.Inv.holds_iff (hb : b ∈ d.cache) {vaddr page : Nat} :
    d.Holds (b.id, vaddr) page ↔ Mapped b.v2p vaddr page := by
  refine ⟨?_, fun hmapped => .inl ⟨b, hb, rfl, hmapped⟩⟩
  rintro (⟨b', hb', hid, hmapped⟩ | ⟨hclosed, -⟩)
  · exact h.basis_eq hb' hb (congrArg BasisId.name hid) ▸ hmapped
  · exact absurd rfl (hclosed b hb)

/-- A virtual page has one block, whether its basis is open or not. -/
theorem Store.Inv.one_block {o : BasisId × Nat} {page page' : Nat} (hpage : d.table page = some o)
    (hpage' : d.table page' = some o) : page = page' := by
  by_cases hopen : ∃ b ∈ d.cache, b.id = o.1
  · obtain ⟨b, hb, hid⟩ := hopen
    have hlisted := h.listed b hb
    have hsame : ∀ e ∈ b.v2p, ∀ e' ∈ b.v2p, e.vaddr = e'.vaddr → e = e' := fun _ he _ he' => h.entry_eq hb he he'
    grind
  · have hclosed : ∀ b ∈ d.cache, b.id ≠ o.1 := fun b hb hid => hopen ⟨b, hb, hid⟩
    exact h.ledger.one_place o _ _ (.inr ⟨hclosed, hpage⟩) (.inr ⟨hclosed, hpage'⟩)

theorem Store.Inv.of_space {space : Space} (hlog : Agree ⟨space, []⟩)
    (hfree : ∀ n, space.hasInPool n = true → d.space.hasInPool n = true ∨ n < ptEntries ∧ ∀ o, ¬ d.Holds o n) :
    Store.Inv { d with space } :=
  ⟨h.names, h.vaddrs, hlog, h.ledger.mono (fun _ _ hholds => hholds) hfree, h.written, h.listed⟩

variable {space : Space} {table : Table} {f : List Entry → List Entry} (hb : b ∈ d.cache)
include hb

theorem Store.Inv.mem_modifyMap (hb' : b' ∈ (modifyMap { d with space, table } b.name f).cache) :
    b' = { b with v2p := f b.v2p } ∨ (b' ∈ d.cache ∧ b'.id ≠ b.id) := by
  obtain ⟨b', hold, rfl⟩ := List.mem_map.mp hb'
  by_cases hname : b'.name = b.name
  · rw [if_pos hname, h.basis_eq hold hb hname]
    exact .inl rfl
  · rw [if_neg hname]
    exact .inr ⟨hold, fun hid => hname (congrArg BasisId.name hid)⟩

-- the blocks that a step writes are its own basis's
variable (hnew : ∀ o page, o.1 ≠ b.id → table page = some o → d.table page = some o)
include hnew

theorem Store.Inv.holds_modifyMap {o : BasisId × Nat} {page : Nat}
    (hholds : (modifyMap { d with space, table } b.name f).Holds o page) :
    (o.1 ≠ b.id ∧ d.Holds o page) ∨ (o.1 = b.id ∧ Mapped (f b.v2p) o.2 page) := by
  rcases hholds with ⟨b', hb', hid, hmapped⟩ | ⟨hclosed, htable⟩
  · rcases h.mem_modifyMap hb hb' with rfl | ⟨hold, hne⟩
    · exact .inr ⟨hid.symm, hmapped⟩
    · exact .inl ⟨hid ▸ hne, .inl ⟨b', hold, hid, hmapped⟩⟩
  · have hclosed' : ∀ b' ∈ d.cache, b'.id ≠ o.1 := by
      intro b' hold
      have hne := hclosed _ (List.mem_map_of_mem hold)
      split at hne <;> exact hne
    have hne : o.1 ≠ b.id := (hclosed' b hb).symm
    exact .inl ⟨hne, .inr ⟨hclosed', hnew o page hne htable⟩⟩

/-- A step on the map of a basis has to keep the blocks that other open bases refer to. -/
theorem Store.Inv.of_modifyMap (hlog : Agree ⟨space, []⟩) (hdistinct : Keyed.Distinct Entry.vaddr (f b.v2p))
    (hledger : Ledger ptEntries (space.hasInPool · = true) (modifyMap { d with space, table } b.name f).Holds)
    (hwritten : ∀ e ∈ f b.v2p, e.pp.valid = true → e.pp.clean = true → table e.pp.number = some (b.id, e.vaddr))
    (hlisted : ∀ page vaddr, table page = some (b.id, vaddr) → ∃ e ∈ f b.v2p, e.vaddr = vaddr ∧ e.pp.number = page)
    (hsame : ∀ o page, o.1 ≠ b.id → d.Refers page → d.Holds o page → table page = d.table page) :
    (modifyMap { d with space, table } b.name f).Inv := by
  have hnames : (modifyMap { d with space, table } b.name f).cache.map Basis.name = d.cache.map Basis.name := by
    rw [Store.modifyMap, List.map_map]
    apply List.map_congr_left
    intro b' _
    simp only [Function.comp]
    split <;> rfl
  have hmem : ∀ b' ∈ (modifyMap { d with space, table } b.name f).cache,
      b' = { b with v2p := f b.v2p } ∨ (b' ∈ d.cache ∧ b'.id ≠ b.id) := fun b' hb' => h.mem_modifyMap hb hb'
  refine ⟨by rw [Keyed.Distinct, hnames]; exact h.names, ?_, hlog, hledger, ?_, ?_⟩
  · intro b' hb'
    rcases hmem b' hb' with rfl | ⟨hold, -⟩
    · exact hdistinct
    · exact h.vaddrs b' hold
  · intro b' hb' e he hvalid hclean
    rcases hmem b' hb' with rfl | ⟨hold, hne⟩
    · exact hwritten e he hvalid hclean
    · have hmapped : Mapped b'.v2p e.vaddr e.pp.number := ⟨e, he, rfl, hvalid, rfl⟩
      rw [← h.written b' hold e he hvalid hclean]
      exact hsame (b'.id, e.vaddr) _ hne ⟨b', hold, _, hmapped⟩ ((h.holds_iff hold).mpr hmapped)
  · intro b' hb' page vaddr htable
    rcases hmem b' hb' with rfl | ⟨hold, hne⟩
    · exact hlisted page vaddr htable
    · exact h.listed b' hold page vaddr (hnew (b'.id, vaddr) page hne htable)

end

/-- The block that the last of the writes to a page leaves, or the block that was there. -/
theorem foldl_update (val : Entry → Option (BasisId × Nat)) (entries : List Entry) (table : Table) (page : Nat) :
    (∃ e ∈ entries, e.pp.number = page ∧
        entries.foldl (fun table e => update table e.pp.number (val e)) table page = val e) ∨
      ((∀ e ∈ entries, e.pp.number ≠ page) ∧
        entries.foldl (fun table e => update table e.pp.number (val e)) table page = table page) := by
  induction entries generalizing table with
  | nil => exact .inr ⟨nofun, rfl⟩
  | cons e rest ih =>
    rcases ih (update table e.pp.number (val e)) with ⟨e', he', hnumber, hval⟩ | ⟨hnone, hkept⟩
    · exact .inl ⟨e', List.mem_cons_of_mem e he', hnumber, hval⟩
    · rw [List.foldl_cons, hkept]
      by_cases heq : e.pp.number = page
      · subst heq
        exact .inl ⟨e, List.mem_cons_self, rfl, update_self ..⟩
      · rw [update_of_ne (Ne.symm heq)]
        exact .inr ⟨List.forall_mem_cons.mpr ⟨heq, hnone⟩, rfl⟩

section

variable {d : Store} {E : Empty → Store → Prop} {name vaddr drawLog draw : Nat} {b : Basis}

theorem post_onSpace {α : Type} {m : SpaceM α} {Q : α → Store → Prop}
    (h : ∀ a s', m d.space = .ok a s' → Q a { d with space := s' }) : Post (onSpace m) Q E d := by
  rw [onSpace, post_zoom, Post]
  cases hm : m d.space with
  | ok a s' => exact h a s' hm
  | err e s' => exact e.elim
  | panic => trivial

variable (h : d.Inv)
include h

theorem Store.Inv.alloc_mapped (hb : d.basis? name = some b) {pp : PhysPage} {s' : Space}
    (hok : tryFastSpaceAlloc drawLog draw d.space = .ok (some pp) s')
    (hold : ∀ e ∈ b.v2p, e.vaddr = vaddr → d.table e.pp.number ≠ some (b.id, vaddr)) :
    (modifyMap { d with space := s' } name (Keyed.replace Entry.vaddr · ⟨vaddr, pp⟩)).Inv := by
  have hmem := Keyed.get_mem hb
  obtain ⟨hlog, hsub, hpage⟩ := alloc_pool h.log hok
  obtain ⟨-, hclean, hpool, hgone⟩ := hpage pp rfl
  have hiff : ∀ vaddr page, d.Holds (b.id, vaddr) page ↔ Mapped b.v2p vaddr page := fun _ _ => h.holds_iff hmem
  rw [← Keyed.get_key hb]
  refine h.of_modifyMap hmem (fun _ _ _ htable => htable) hlog ((h.vaddrs b hmem).replace _) ?_ ?_ ?_
    fun _ _ _ _ _ => rfl
  · refine h.ledger.take (a := (b.id, vaddr)) hpool (by grind) fun o page hheld => ?_
    have hcases := h.holds_modifyMap hmem (fun _ _ _ htable => htable) hheld
    grind [Mapped, Keyed.replace, Keyed.remove]
  · have hwritten := h.written b hmem
    grind [Keyed.replace, Keyed.remove]
  · have hlisted := h.listed b hmem
    grind [Keyed.replace, Keyed.remove]

theorem Store.Inv.alloc_space {answer : Option PhysPage} {s' : Space}
    (hok : tryFastSpaceAlloc drawLog draw d.space = .ok answer s') : Store.Inv { d with space := s' } := by
  obtain ⟨hlog, hsub, -⟩ := alloc_pool h.log hok
  exact h.of_space hlog fun n hn => .inl (hsub n hn)

theorem reserve_inv : Post (reserve name vaddr drawLog draw) (fun _ d' => d'.Inv) E d := by
  rw [reserve, post_bind, post_get]
  cases hb : d.basis? name with
  | none => exact h
  | some b =>
    simp only
    cases hnone : Keyed.get Entry.vaddr b.v2p vaddr with
    | some e => exact h
    | none =>
      simp only
      rw [post_bind]
      apply post_onSpace
      intro answer s' hok
      cases answer with
      | none => trivial
      | some ap =>
        have hvalid := ((alloc_pool h.log hok).2.2 ap rfl).1
        have hsame : { ap with valid := true } = ap := by rw [← hvalid]
        simp only [hsame]
        exact h.alloc_mapped hb hok fun e he heq => absurd heq (Keyed.get_eq_none.mp hnone e he)

theorem place_inv (hsafe : Safe d (.place name vaddr drawLog draw)) :
    Post (place name vaddr drawLog draw) (fun _ d' => d'.Inv) E d := by
  rw [place, post_bind, post_get]
  cases hb : d.basis? name with
  | none => exact h
  | some b =>
    simp only
    rw [post_bind]
    apply post_onSpace
    intro answer s' hok
    cases answer with
    | none => exact h.alloc_space hok
    | some pp =>
      simp only
      rw [post_bind, post_assert]
      exact fun _ => h.alloc_mapped hb hok (hsafe b hb)

omit h in
theorem basis?_modifyMap {f : List Entry → List Entry} (hb : d.basis? name = some b) :
    (d.modifyMap name f).basis? name = some { b with v2p := f b.v2p } := by
  rw [basis?, Keyed.get, modifyMap, List.find?_map]
  have hcomp : ((fun b : Basis => decide (b.name = name)) ∘
      fun b => if b.name = name then { b with v2p := f b.v2p } else b) = fun b => decide (b.name = name) := by
    funext b
    simp only [comp]
    split <;> rfl
  have hfind : d.cache.find? (fun b => decide (b.name = name)) = some b := hb
  rw [hcomp, hfind, Option.map_some, if_pos (Keyed.get_key hb)]

section

variable (hb : d.basis? name = some b) {e : Entry} (he : e ∈ b.v2p) (hvalid : e.pp.valid = true)
include hb he hvalid

theorem Store.Inv.holds_entry : d.Holds (b.id, e.vaddr) e.pp.number :=
  (h.holds_iff (Keyed.get_mem hb)).mpr ⟨e, he, rfl, hvalid, rfl⟩

theorem Store.Inv.entry_out_of_pool : d.space.hasInPool e.pp.number = false := by
  by_contra hpool
  exact h.ledger.apart _ (by simpa using hpool) _ (h.holds_entry hb he hvalid)

theorem Store.Inv.giveBack {space : Space} {table : Table} (hlog : Agree ⟨space, []⟩)
    (hspace : ∀ n, space.hasInPool n = true → n = e.pp.number ∨ d.space.hasInPool n = true)
    (hnew : ∀ o page, table page = some o → d.table page = some o)
    (hkept : ∀ page, page ≠ e.pp.number → table page = d.table page)
    {f : List Entry → List Entry} (hdistinct : Keyed.Distinct Entry.vaddr (f b.v2p))
    (hf : ∀ e' ∈ f b.v2p, e'.pp.valid = true → e' ∈ b.v2p ∧ e'.vaddr ≠ e.vaddr)
    (hlisted : ∀ e' ∈ b.v2p, table e'.pp.number = some (b.id, e'.vaddr) →
      ∃ e'' ∈ f b.v2p, e''.vaddr = e'.vaddr ∧ e''.pp.number = e'.pp.number) :
    (modifyMap { d with space, table } name f).Inv ∧ ∀ o page,
      (modifyMap { d with space, table } name f).Holds o page → o ≠ (b.id, e.vaddr) ∧ d.Holds o page := by
  have hmem := Keyed.get_mem hb
  have hown := h.holds_entry hb he hvalid
  have hone := h.ledger.one_holder
  have hiff : ∀ vaddr page, d.Holds (b.id, vaddr) page ↔ Mapped b.v2p vaddr page := fun _ _ => h.holds_iff hmem
  rw [← Keyed.get_key hb]
  have hholds : ∀ o page, (modifyMap { d with space, table } b.name f).Holds o page →
      o ≠ (b.id, e.vaddr) ∧ d.Holds o page := by
    intro o page hheld
    have hcases := h.holds_modifyMap hmem (fun o page _ => hnew o page) hheld
    grind [Mapped]
  refine ⟨h.of_modifyMap hmem (fun o page _ => hnew o page) hlog hdistinct (h.ledger.giveBack hown hspace hholds)
    ?_ ?_ ?_, hholds⟩
  · intro e' he' hvalid' hclean'
    obtain ⟨hold, hne⟩ := hf e' he' hvalid'
    have hheld := h.holds_entry hb hold hvalid'
    have hwritten := h.written b hmem e' hold hvalid' hclean'
    grind
  · have hblocks := h.listed b hmem
    grind
  · grind

end

theorem giveBack_inv (hb : d.basis? name = some b) {e : Entry} (he : e ∈ b.v2p) (hvalid : e.pp.valid = true) :
    Post (giveBack name drawLog e) (fun _ d' => d'.Inv ∧ ∃ pp, pp.number = e.pp.number ∧
      d'.basis? name = some { b with v2p := setPage e.vaddr pp b.v2p } ∧
      ∀ page, d'.Refers page → d.Refers page ∧ page ≠ e.pp.number) E d := by
  have hmem := Keyed.get_mem hb
  rw [giveBack, post_bind]
  apply post_onSpace
  intro pp s' hok
  obtain ⟨hlog, hspace, hinvalid, hnumber⟩ := free_pool h.log (h.entry_out_of_pool hb he hvalid) hok
  have hvaddrs : (setPage e.vaddr pp b.v2p).map Entry.vaddr = b.v2p.map Entry.vaddr := by
    rw [setPage, List.map_map]
    apply List.map_congr_left
    grind
  have hsame : ∀ e' ∈ b.v2p, e'.vaddr = e.vaddr → e' = e := fun e' he' => h.entry_eq hmem he' he
  have hinv := h.giveBack hb he hvalid (f := setPage e.vaddr pp) hlog hspace (fun _ _ htable => htable)
    (fun _ _ => rfl) (by rw [Keyed.Distinct, hvaddrs]; exact h.vaddrs b hmem) (by grind [setPage])
    fun e' he' _ => ⟨_, List.mem_map_of_mem he', by grind⟩
  rw [post_modify]
  refine ⟨hinv.1, pp, hnumber, basis?_modifyMap hb, ?_⟩
  rintro page ⟨b', hb', v, hmapped⟩
  obtain ⟨hne, hheld⟩ := hinv.2 (b'.id, v) page (.inl ⟨b', hb', rfl, hmapped⟩)
  refine ⟨?_, fun heq => hne (h.ledger.one_holder _ _ _ hheld (heq ▸ h.holds_entry hb he hvalid))⟩
  rw [← Keyed.get_key hb] at hb'
  rcases h.mem_modifyMap hmem hb' with rfl | ⟨hold, -⟩
  · exact ⟨b, hmem, v, (h.holds_iff hmem).mp hheld⟩
  · exact ⟨b', hold, v, hmapped⟩

theorem release_inv : Post (release name vaddr drawLog) (fun _ d' => d'.Inv) E d := by
  rw [release, post_bind, post_get]
  cases hfound : (d.basis? name).bind fun b => Keyed.get Entry.vaddr b.v2p vaddr with
  | none => exact h
  | some e =>
    simp only
    rw [post_bind, post_assert]
    intro hvalid
    obtain ⟨b, hb, he⟩ := Option.bind_eq_some_iff.mp hfound
    exact (giveBack_inv h hb (Keyed.get_mem he) hvalid).imp fun _ _ hpost => hpost.1

theorem cut_inv : Post (cut name vaddr drawLog) (fun _ d' => d'.Inv) E d := by
  rw [cut, post_bind, post_get]
  cases hfound : (d.basis? name).bind fun b => Keyed.get Entry.vaddr b.v2p vaddr with
  | none => exact h
  | some e =>
    simp only
    rw [post_bind, post_modify, post_bind, post_assert]
    intro hvalid
    rw [post_bind, post_modify, post_bind]
    apply post_onSpace
    intro pp s' hok
    obtain ⟨b, hb, hget⟩ := Option.bind_eq_some_iff.mp hfound
    have he := Keyed.get_mem hget
    obtain rfl := Keyed.get_key hget
    have hmem := Keyed.get_mem hb
    obtain ⟨hlog, hspace, -⟩ := free_pool h.log (h.entry_out_of_pool hb he hvalid) hok
    have hsame : ∀ e' ∈ b.v2p, e'.vaddr = e.vaddr → e' = e := fun e' he' => h.entry_eq hmem he' he
    have hnew : ∀ o page, ptErase d.table e.pp.number page = some o → d.table page = some o := by
      grind [ptErase_apply]
    exact (h.giveBack hb he hvalid hlog hspace hnew (fun page hne => update_of_ne hne ..) ((h.vaddrs b hmem).remove _)
      (by grind [Keyed.remove]) (by grind [Keyed.remove, ptErase_apply])).1

omit h in
/-- A page is written with a new entry, erased, or left alone if it is not the page of an entry that
waits for the sync. -/
theorem Basis.syncedTable_cases (b : Basis) (table : Table) (page : Nat) :
    (∃ e ∈ b.v2p, e.pp.valid = true ∧ e.pp.number = page ∧ b.syncedTable table page = some (b.id, e.vaddr)) ∨
    (∃ e ∈ b.v2p, e.pp.valid = false ∧ e.pp.number = page ∧ b.syncedTable table page = none) ∨
    ((∀ e ∈ b.v2p, e.pp.number = page → e.pp.valid = true ∧ e.pp.clean = true) ∧
      b.syncedTable table page = table page) := by
  rw [syncedTable]
  rcases foldl_update (fun e => some (b.id, e.vaddr)) (b.v2p.filter fun e => e.pp.valid && !e.pp.clean)
      ((b.v2p.filter fun e => !e.pp.valid).foldl (fun table e => ptErase table e.pp.number) table) page with
    ⟨e, he, hnumber, hwritten⟩ | ⟨hclean, hkept⟩
  · obtain ⟨hmem, hnew⟩ := List.mem_filter.mp he
    exact .inl ⟨e, hmem, (Bool.and_eq_true_iff.mp hnew).1, hnumber, hwritten⟩
  · right
    rcases foldl_update (fun _ => none) (b.v2p.filter fun e => !e.pp.valid) table page with
      ⟨e, he, hnumber, herased⟩ | ⟨hvalid, hsame⟩
    · obtain ⟨hmem, hold⟩ := List.mem_filter.mp he
      exact .inl ⟨e, hmem, by simpa using hold, hnumber, hkept.trans herased⟩
    · refine .inr ⟨fun e he hnumber => ?_, hkept.trans hsame⟩
      have hv : e.pp.valid = true := by
        by_contra hnot
        exact hvalid e (List.mem_filter.mpr ⟨he, by simpa using hnot⟩) hnumber
      refine ⟨hv, ?_⟩
      by_contra hnot
      exact hclean e (List.mem_filter.mpr ⟨he, by simp [hv, hnot]⟩) hnumber

theorem Store.Inv.ptSync (hmem : b ∈ d.cache)
    (hsafe : ∀ e ∈ b.v2p, e.pp.valid = true ∨ ¬ d.Refers e.pp.number) : (d.ptSync b).Inv := by
  have hholds : ∀ e ∈ b.v2p, e.pp.valid = true → d.Holds (b.id, e.vaddr) e.pp.number :=
    fun e he hvalid => (h.holds_iff hmem).mpr ⟨e, he, rfl, hvalid, rfl⟩
  have hrefers : ∀ e ∈ b.v2p, e.pp.valid = true → d.Refers e.pp.number :=
    fun e he hvalid => ⟨b, hmem, e.vaddr, e, he, rfl, hvalid, rfl⟩
  have hcases := b.syncedTable_cases d.table
  have hone := h.ledger.one_holder
  have hnew : ∀ o page, o.1 ≠ b.id → b.syncedTable d.table page = some o → d.table page = some o := by grind
  refine h.of_modifyMap hmem hnew h.log ?_ (h.ledger.mono ?_ fun _ hn => .inl hn) ?_ ?_ (by grind)
  · rw [Keyed.Distinct, syncedMap, List.map_map]
    exact (h.vaddrs b hmem).sublist (List.filter_sublist.map _)
  · intro o page hheld
    rcases h.holds_modifyMap hmem hnew hheld with ⟨-, hheld⟩ | ⟨hid, e, he, hvaddr, hvalid, rfl⟩
    · exact hheld
    · obtain ⟨e, hkept, rfl⟩ := List.mem_map.mp he
      exact .inl ⟨b, hmem, hid.symm, e, (List.mem_filter.mp hkept).1, hvaddr, hvalid, rfl⟩
  · have hwritten := h.written b hmem
    grind [syncedMap]
  · have hlisted := h.listed b hmem
    intro page v htable
    obtain ⟨e, he, hvalid, hvaddr, hnumber⟩ : ∃ e ∈ b.v2p, e.pp.valid = true ∧ e.vaddr = v ∧ e.pp.number = page := by
      grind
    exact ⟨_, List.mem_map_of_mem (List.mem_filter.mpr ⟨he, hvalid⟩), hvaddr, hnumber⟩

theorem syncTable_inv (hsafe : Safe d (.syncTable name)) : Post (syncTable name)
    (fun _ d' => d'.Inv ∧ ∀ b, d'.basis? name = some b → ∀ e ∈ b.v2p, e.pp.valid = true) E d := by
  rw [syncTable, post_bind, post_get]
  cases hb : d.basis? name with
  | none => exact ⟨h, fun b hb' => by cases hb.symm.trans hb'⟩
  | some b =>
    refine ⟨h.ptSync (Keyed.get_mem hb) (hsafe b hb), fun b' hb' e he => ?_⟩
    obtain rfl := Keyed.get_key hb
    have hsynced : (d.ptSync b).basis? b.name = _ :=
      basis?_modifyMap (d := { d with table := b.syncedTable d.table }) hb
    cases hsynced.symm.trans hb'
    obtain ⟨e, hkept, rfl⟩ := List.mem_map.mp he
    exact (List.mem_filter.mp hkept).2

theorem basisDelete_inv {drawLog : Entry → Nat} (hsafe : Safe d (.basisDelete name drawLog)) :
    Post (basisDelete name drawLog) (fun _ d' => d'.Inv) E d := by
  -- the entries that are left are still those of the map, and what is given back is not referred to
  have hloop : ∀ (entries : List Entry) (d : Store) (b : Basis), d.Inv → d.basis? name = some b →
      (∀ e ∈ entries, e ∈ b.v2p ∧ e.pp.valid = true) → Keyed.Distinct Entry.vaddr entries →
      Safe d (.syncTable name) → Post (forEach entries fun e => giveBack name (drawLog e) e)
        (fun _ d' => d'.Inv ∧ Safe d' (.syncTable name)) E d := by
    intro entries
    induction entries with
    | nil => exact fun d b h _ _ _ hsync => ⟨h, hsync⟩
    | cons e rest ih =>
      intro d b h hb hentries hdistinct hsync
      obtain ⟨he, hvalid⟩ := hentries e List.mem_cons_self
      rw [Keyed.Distinct, List.map_cons, List.nodup_cons] at hdistinct
      rw [forEach, post_bind]
      refine (giveBack_inv h hb he hvalid).imp ?_
      rintro _ d' ⟨hinv, pp, hnumber, hb', hrefers⟩
      refine ih d' _ hinv hb' (fun e' he' => ?_) hdistinct.2 fun b' hb'' e' he' => ?_
      · have hne : e'.vaddr ≠ e.vaddr := fun heq => hdistinct.1 (heq ▸ List.mem_map_of_mem he')
        grind [setPage]
      · cases hb'.symm.trans hb''
        have hold := hsync b hb
        grind [setPage]
  rw [basisDelete, post_bind, post_get]
  cases hb : d.basis? name with
  | none => exact h
  | some b =>
    simp only
    rw [post_bind]
    have hsync : Safe d (.syncTable name) := fun b' hb' e he => .inl (hsafe b' hb' e he)
    have hall := hloop b.v2p d b h hb (fun e he => ⟨he, hsafe b hb e he⟩) (h.vaddrs b (Keyed.get_mem hb)) hsync
    exact hall.imp fun _ d' hd' => (syncTable_inv hd'.1 hd'.2).imp fun _ _ hpost => hpost.1

/-- Bases are closed: their blocks are all that is known of them. -/
theorem Store.Inv.closed {space : Space} {cache : List Basis} (hnames : Keyed.Distinct Basis.name cache)
    (hsub : ∀ b ∈ cache, b ∈ d.cache) (hlog : Agree ⟨space, []⟩)
    (hspace : ∀ n, space.hasInPool n = true → d.space.hasInPool n = true)
    (hblocks : ∀ b ∈ d.cache, b ∉ cache → ∀ e ∈ b.v2p,
      e.pp.valid = true ∨ d.table e.pp.number ≠ some (b.id, e.vaddr)) :
    Store.Inv { d with space, cache } := by
  refine ⟨hnames, fun b hb => h.vaddrs b (hsub b hb), hlog, h.ledger.mono ?_ fun n hn => .inl (hspace n hn),
    fun b hb => h.written b (hsub b hb), fun b hb => h.listed b (hsub b hb)⟩
  rintro ⟨id, v⟩ page (⟨b, hb, hid, hmapped⟩ | ⟨hclosed, htable⟩)
  · exact .inl ⟨b, hsub b hb, hid, hmapped⟩
  · have hlisted := h.listed
    grind [Store.Holds, Mapped]

theorem Store.Inv.removed (hvalid : ∀ b, d.basis? name = some b → ∀ e ∈ b.v2p, e.pp.valid = true) :
    Store.Inv { d with cache := Keyed.remove Basis.name d.cache name } := by
  refine h.closed (h.names.remove name) (fun b hb => (List.mem_filter.mp hb).1) h.log (fun _ hn => hn) ?_
  intro b hb hgone e he
  have hname : b.name = name := by
    by_contra hne
    exact hgone (List.mem_filter.mpr ⟨hb, by simpa using hne⟩)
  exact .inl (hvalid b (hname ▸ h.names.get_eq hb) e he)

theorem basisUnmount_inv (hsafe : Safe d (.basisUnmount name)) :
    Post (basisUnmount name) (fun _ d' => d'.Inv) E d := by
  rw [basisUnmount, post_bind]
  exact (syncTable_inv h hsafe).imp fun _ d' hd' => hd'.1.removed hd'.2

theorem Store.Inv.added {id : BasisId} {map : List Entry} (hclosed : ∀ b ∈ d.cache, b.name ≠ id.name)
    (hfound : Found d id ptEntries map) : Store.Inv { d with cache := d.cache ++ [⟨id, map⟩] } := by
  have hids : ∀ b ∈ d.cache, b.id ≠ id := fun b hb hid => hclosed b hb (congrArg BasisId.name hid)
  obtain ⟨hdistinct, hin, hcomplete⟩ := hfound
  have ⟨hnames, hvaddrs, hlog, hledger, hwritten, hlisted⟩ := h
  refine ⟨?_, by grind, hlog, hledger.mono (fun o page hheld => ?_) fun _ hn => .inl hn, by grind, ?_⟩
  · rw [Keyed.Distinct, List.map_append, List.nodup_append]
    exact ⟨hnames, List.nodup_singleton _, by grind [Basis.name]⟩
  · grind [Store.Holds, Mapped]
  · have hblocks : ∀ page v, d.table page = some (id, v) → ∃ e ∈ map, e.vaddr = v ∧ e.pp.number = page :=
      fun page v htable => hcomplete (fun _ _ _ => h.one_block) page
        (hledger.holds_lt (id, v) page (.inr ⟨hids, htable⟩)) v htable
    grind

theorem Store.Inv.ptSync_eq_self (hmem : b ∈ d.cache) (hall : ∀ e ∈ b.v2p, e.pp.valid = true ∧ e.pp.clean = true) :
    d.ptSync b = d := by
  have htable : b.syncedTable d.table = d.table := by
    rw [Basis.syncedTable, List.filter_eq_nil_iff.mpr fun e he => by simp [hall e he],
      List.filter_eq_nil_iff.mpr fun e he => by simp [hall e he]]
    rfl
  have hmap : syncedMap b.v2p = b.v2p := by
    rw [syncedMap, List.filter_eq_self.mpr fun e he => (hall e he).1]
    refine (List.map_congr_left fun e he => ?_).trans (List.map_id _)
    rw [← (hall e he).2]
    rfl
  have hcache : d.cache.map (fun b' => if b'.name = b.name then { b' with v2p := syncedMap b'.v2p } else b') = d.cache := by
    refine (List.map_congr_left fun b' hb' => ?_).trans (List.map_id _)
    split
    · rename_i hname
      rw [h.basis_eq hb' hmem hname, hmap]
      rfl
    · rfl
  rw [Store.ptSync, htable, modifyMap, hcache]

theorem basisOpen_inv {id : BasisId} {conflicts : Conflicts} (hsafe : Safe d (.basisOpen id conflicts)) :
    Post (basisOpen id conflicts) (fun _ d' => d'.Inv) E d := by
  rw [basisOpen, post_bind, post_gets, post_when]
  refine ⟨fun _ => ?_, fun _ => h⟩
  rw [post_bind]
  -- the basis that is unmounted has nothing to sync, so that the scan still holds
  have hunmount : Post (basisUnmount id.name)
      (fun _ d' => d' = { d with cache := Keyed.remove Basis.name d.cache id.name }) E d := by
    rw [basisUnmount, post_bind, syncTable, post_bind, post_get]
    cases hb : d.basis? id.name with
    | none => exact rfl
    | some b =>
      simp only
      rw [post_modify, post_modify, h.ptSync_eq_self (Keyed.get_mem hb) (hsafe b hb)]
  refine hunmount.imp ?_
  rintro _ d' rfl
  rw [post_modify]
  have hfound := ptScanKey_found d id conflicts
  refine (h.removed fun b hb e he => (hsafe b hb e he).1).added (fun b hb => ?_)
    ⟨hfound.distinct, hfound.inTable, hfound.complete⟩
  simpa using (List.mem_filter.mp hb).2

theorem basisCreate_inv {id : BasisId} {conflicts : Conflicts}
    (hsafe : Safe d (.basisCreate id conflicts drawLog draw)) :
    Post (basisCreate id conflicts drawLog draw) (fun _ d' => d'.Inv) E d := by
  rw [basisCreate, post_bind, post_get]
  split
  · rename_i hscan
    have hclosed : ∀ b ∈ d.cache, b.id ≠ id := hsafe
    have hnone : ∀ page v, d.table page ≠ some (id, v) := by
      intro page v htable
      have hlt := h.ledger.holds_lt (id, v) page (.inr ⟨hclosed, htable⟩)
      have hfound := (ptScanKey_found d id conflicts).complete (fun _ _ _ => h.one_block) page hlt v htable
      simp [hscan] at hfound
    rw [post_bind]
    apply post_onSpace
    intro answer s' hok
    cases answer with
    | none => exact h.alloc_space hok
    | some pp =>
      obtain ⟨hlog, hsub, hpage⟩ := alloc_pool h.log hok
      obtain ⟨-, -, hpool, hgone⟩ := hpage pp rfl
      have hfresh := h.ledger.apart pp.number hpool
      obtain ⟨hnames, hvaddrs, -, hledger, hwritten, hlisted⟩ := h
      refine ⟨hnames, hvaddrs, hlog, ?_, fun b hb e he hvalid hclean => ?_, by grind [ptPatchMapping_apply]⟩
      · refine hledger.take (a := (id, rootVaddr)) hpool (by grind) fun o page hheld => ?_
        grind [Store.Holds, ptPatchMapping_apply]
      · have hne : e.pp.number ≠ pp.number := fun heq =>
          hfresh (b.id, e.vaddr) (.inl ⟨b, hb, rfl, e, he, rfl, hvalid, heq⟩)
        exact (update_of_ne hne ..).trans (hwritten b hb e he hvalid hclean)
  · exact h

theorem ensure_inv {total pages : Nat} {conflicts : Conflicts} {draws : Draws} (htotal : total ≤ ptEntries)
    (hsafe : Safe d (.ensure conflicts draws pages)) :
    Post (ensure total conflicts draws pages) (fun _ d' => d'.Inv) E d := by
  rw [ensure, post_modify, Space.ensureFastSpaceAlloc]
  split
  · split
    · exact h
    · refine h.of_space (.read _ nofun) fun n hn => ?_
      obtain ⟨c, hc, rfl, hpool⟩ := exists_of_hasInPool_write hn
      exact .inl (hasInPool_of_mem h.log.distinct (List.mem_of_mem_take hc) hpool)
  · rename_i hfew
    simp only
    split
    · exact h
    · refine h.of_space (.read _ nofun) fun n hn => ?_
      obtain ⟨c, hc, rfl, -⟩ := exists_of_hasInPool_write hn
      obtain ⟨hclean, hopen⟩ := hsafe.resolve_left hfew
      have hused := d.space.generateUsedMap_nodup (d.scanned_nodup conflicts h.names)
      obtain ⟨hlt, hnot⟩ := free_of_mem_generate hused (List.mem_of_mem_take hc)
      refine .inr ⟨hlt.trans_le htotal, fun o hheld => hnot (mem_generateUsedMap d.space ?_)⟩
      -- the holder is open, and its entry is synced: the scan finds it
      obtain ⟨b, hb, v, htable⟩ : ∃ b ∈ d.cache, ∃ v, d.table c.number = some (b.id, v) := by
        have hwritten := h.written
        grind [Store.Holds, Mapped]
      obtain ⟨e, he, -, hpage⟩ := (ptScanKey_found d b.id conflicts).complete (fun _ _ _ => h.one_block)
        c.number (hlt.trans_le htotal) v htable
      exact List.mem_flatMap.mpr ⟨b, hb, List.mem_map.mpr ⟨e, he, hpage⟩⟩

theorem reboot_inv (hsafe : Safe d (.reboot draw)) : Post (reboot draw) (fun _ d' => d'.Inv) E d := by
  rw [reboot, post_modify]
  refine h.closed List.nodup_nil nofun (h.log.reread draw) (fun n hn => ?_) fun b hb _ => hsafe b hb
  -- the log shows every page as used that is not in the pool
  by_contra hout
  obtain ⟨c, hc, rfl, hpool⟩ := exists_of_hasInPool hn
  have hflash : onFlash d.space.fscb c.number = some c := (replay_distinct _).get_eq hc
  simp [h.log.out_of_pool _ c (by simpa using hout) hflash] at hpool

theorem exec_inv {total : Nat} (htotal : total ≤ ptEntries) {event : StoreEvent} (hsafe : Safe d event) :
    Post (exec total event) (fun _ d' => d'.Inv) E d := by
  cases event with
  | reserve name vaddr drawLog draw => exact reserve_inv h
  | place name vaddr drawLog draw => exact place_inv h hsafe
  | release name vaddr drawLog => exact release_inv h
  | cut name vaddr drawLog => exact cut_inv h
  | syncTable name => exact (syncTable_inv h hsafe).imp fun _ _ hpost => hpost.1
  | basisCreate id conflicts drawLog draw => exact basisCreate_inv h hsafe
  | basisDelete name drawLog => exact basisDelete_inv h hsafe
  | basisOpen id conflicts => exact basisOpen_inv h hsafe
  | basisUnmount name => exact basisUnmount_inv h hsafe
  | ensure conflicts draws pages => exact ensure_inv h htotal hsafe
  | reboot draw => exact reboot_inv h hsafe

end

/-- A device that was just mounted: the pool is read and no basis is open. Each virtual page has one
block at most, none of them that of a page in the pool. -/
structure Store.Mounted : Prop where
  closed : d.cache = []
  read : ∃ (s : Space) (draw : Nat), d.space = s.fastSpaceRead draw
  blocks : Ledger ptEntries (d.space.hasInPool · = true) fun o page => d.table page = some o

theorem Store.Mounted.inv {d : Store} (h : d.Mounted) : d.Inv := by
  obtain ⟨hclosed, ⟨s, draw, hspace⟩, hblocks⟩ := h
  refine ⟨?_, ?_, hspace ▸ .read draw nofun, hblocks.mono ?_ fun _ hn => .inl hn, ?_, ?_⟩
  · rw [hclosed]
    exact List.nodup_nil
  all_goals simp [hclosed, Store.Holds]

/-- From a device that was just mounted, over every sequence of harmless steps on any number of
bases: the page that an allocation returns is not referred to by a valid entry of an open basis, and
no two virtual pages share a page. -/
theorem allocated_pages_are_not_mapped {total : Nat} {start d : Store} {events : List StoreEvent}
    (htotal : total ≤ ptEntries) (hstart : start.Mounted)
    (run : Run (fun d event d' => Safe d event ∧ exec total event d = .ok () d') start events d) :
    (∀ drawLog draw pp s', tryFastSpaceAlloc drawLog draw d.space = .ok (some pp) s' →
      ¬ d.Refers pp.number) ∧ d.NoSharing := by
  have hinv : d.Inv := by
    refine run.invariant hstart.inv ?_
    rintro d1 event d2 h ⟨hsafe, hexec⟩
    have hpost : Post (exec total event) (fun _ d' => d'.Inv) (fun _ _ => True) d1 := exec_inv h htotal hsafe
    exact hpost.ok hexec
  constructor
  · rintro drawLog draw pp s' hok ⟨b, hb, vaddr, hmapped⟩
    obtain ⟨-, -, hpool, -⟩ := (alloc_pool hinv.log hok).2.2 pp rfl
    exact hinv.ledger.apart _ hpool _ ((hinv.holds_iff hb).mpr hmapped)
  · intro b hb b' hb' vaddr vaddr' page hmapped hmapped'
    obtain ⟨hid, hvaddr⟩ := Prod.mk.inj (hinv.ledger.one_holder _ _ _ ((hinv.holds_iff hb).mpr hmapped)
      ((hinv.holds_iff hb').mpr hmapped'))
    exact ⟨hinv.basis_eq hb hb' (congrArg BasisId.name hid), hvaddr⟩

def sampleId : BasisId := ⟨0, 0⟩

/-- A device with one basis, of which only the root is there, and one page in the pool. -/
def sampleStore : Store where
  space := (emptySpace.fastSpaceWrite 0 [samplePage 5 0 .free]).fastSpaceRead 0
  table page := if page = 0 then some (sampleId, rootVaddr) else none
  cache := []

theorem sampleStore_mounted : sampleStore.Mounted := by
  have hpool : ∀ n, sampleStore.space.hasInPool n = true → n = 5 := by
    intro n hn
    have hcache : sampleStore.space.cache = [samplePage 5 0 .free] := by decide +kernel
    obtain ⟨c, hc, rfl, -⟩ := exists_of_hasInPool hn
    rw [hcache] at hc
    exact congrArg PhysPage.number (List.mem_singleton.mp hc)
  have htable : ∀ o page, sampleStore.table page = some o → page = 0 ∧ o = (sampleId, rootVaddr) := by
    grind [sampleStore]
  refine ⟨rfl, ⟨_, 0, rfl⟩, ?_⟩
  constructor <;> grind [ptEntries]

def keepFirst : Conflicts := fun _ _ => .keep

/-- The basis is opened and a page is taken for its second virtual page. -/
def sampleOpening : List StoreEvent := [.basisOpen sampleId keepFirst, .reserve 0 8128 0 0]

def sampleRoot : Basis := ⟨sampleId, [⟨rootVaddr, foundPage 0⟩]⟩

def sampleTaken : PhysPage := (samplePage 5 0 .free).allocated

def sampleBasis : Basis := ⟨sampleId, [⟨8128, sampleTaken⟩, ⟨rootVaddr, foundPage 0⟩]⟩

def sampleOpened : Store where
  space := { sampleStore.space.committed (2, 0) sampleTaken with cache := [] }
  table := sampleStore.table
  cache := [sampleBasis]

theorem sampleStore_scan : sampleStore.ptScanKey sampleId keepFirst = sampleRoot.v2p := by decide +kernel

theorem sample_open : exec 993 (.basisOpen sampleId keepFirst) sampleStore =
    .ok () { sampleStore with cache := [sampleRoot] } := by
  simp only [exec, basisOpen, bind_apply, gets_apply, sampleStore_scan]
  rfl

theorem sample_reserve :
    exec 993 (.reserve 0 8128 0 0) { sampleStore with cache := [sampleRoot] } = .ok () sampleOpened := rfl

/-- Draws that leave the pages in order. -/
def orderedDraws : Draws := halfDraws (fun i => i) 0

def orderedPages (used : List Nat) : List Nat :=
  (freePages 993 used).take (orderedDraws.deniableFreePages (993 - used.length))

/-- A new pool of pages that are not in the used map. -/
def Store.renewed (used : List Nat) : Store :=
  { d with space := (d.space.fastSpaceWrite 0 ((orderedPages used).mapIdx orderedDraws.page)).fastSpaceRead 0 }

theorem exec_ensure {d : Store} {used : List Nat} (hpages : d.space.fastSpaceHasPages 2 = false)
    (hused : d.space.generateUsedMap (d.scanned keepFirst) = used) (hnodup : used.Nodup) (hfree : 993 ≠ used.length)
    (hsome : (orderedPages used).length ≠ 0) :
    exec 993 (.ensure keepFirst orderedDraws 1) d = .ok () (d.renewed used) := by
  have hlength : (freePages 993 used).length ≤ 993 :=
    (List.length_filter_le _ _).trans (List.length_range ▸ le_rfl)
  have hpool : fastSpaceGenerate 993 used orderedDraws = (orderedPages used).mapIdx orderedDraws.page :=
    fastSpaceGenerate_ordered hnodup hfree (fun _ => rfl) (hlength.trans (by decide))
  have htake : ((orderedPages used).mapIdx orderedDraws.page).take freePoolLen =
      (orderedPages used).mapIdx orderedDraws.page := by
    apply List.take_of_length_le
    rw [List.length_mapIdx, orderedPages, List.length_take]
    exact (min_le_right _ _).trans (hlength.trans (by decide))
  simp only [exec, ensure, modify_apply, Space.ensureFastSpaceAlloc, hpages, Bool.false_eq_true, if_false, hused,
    hpool, List.length_mapIdx, hsome, htake]
  rfl

def sampleSynced : Store := sampleOpened.ptSync sampleBasis

theorem sampleSynced_used : sampleSynced.space.generateUsedMap (sampleSynced.scanned keepFirst) = [5, 0] := by
  decide +kernel

theorem sampleSynced_safe : Safe sampleSynced (.ensure keepFirst orderedDraws 1) := by
  refine .inr ⟨by decide, fun page id vaddr htable => ⟨⟨sampleId, _⟩, List.mem_singleton_self _, ?_⟩⟩
  change ptPatchMapping sampleId sampleStore.table ⟨8128, sampleTaken⟩ page = some (id, vaddr) at htable
  grind [ptPatchMapping_apply, sampleStore]

/-- The basis is opened, a page is taken and synced, and a new pool is made: it has neither page. -/
theorem opening_shares_no_page :
    Run (fun d event d' => Safe d event ∧ exec 993 event d = .ok () d') sampleStore
        (sampleOpening ++ [.syncTable 0, .ensure keepFirst orderedDraws 1]) (sampleSynced.renewed [5, 0]) ∧
      (∀ drawLog draw pp s', tryFastSpaceAlloc drawLog draw (sampleSynced.renewed [5, 0]).space = .ok (some pp) s' →
        ¬ (sampleSynced.renewed [5, 0]).Refers pp.number) ∧ (sampleSynced.renewed [5, 0]).NoSharing := by
  have hopen : Safe sampleStore (.basisOpen sampleId keepFirst) := nofun
  have hsync : Safe sampleOpened (.syncTable 0) := by
    intro b hb e he
    cases hb
    left
    revert e
    decide
  have hensure : exec 993 (.ensure keepFirst orderedDraws 1) sampleSynced = .ok () (sampleSynced.renewed [5, 0]) :=
    exec_ensure rfl sampleSynced_used (by decide) (by decide) (by decide +kernel)
  have hrun : Run (fun d event d' => Safe d event ∧ exec 993 event d = .ok () d') sampleStore
      (sampleOpening ++ [.syncTable 0, .ensure keepFirst orderedDraws 1]) (sampleSynced.renewed [5, 0]) :=
    .cons ⟨hopen, sample_open⟩ (.cons ⟨trivial, sample_reserve⟩ (.cons ⟨hsync, rfl⟩
      (.cons ⟨sampleSynced_safe, hensure⟩ .nil)))
  exact ⟨hrun, allocated_pages_are_not_mapped (by decide) sampleStore_mounted hrun⟩

/-- The scan finds the root's page only: the entry for the other page is not on the disk. -/
theorem sampleOpened_used : sampleOpened.space.generateUsedMap (sampleOpened.scanned keepFirst) = [0] := by
  decide +kernel

theorem samplePage_renewed : orderedDraws.page 4 5 ∈ (sampleOpened.renewed [0]).space.candidates := by
  have hget : (orderedPages [0])[4]? = some 5 := by decide +kernel
  have hnodup : (orderedPages [0]).Nodup := (List.nodup_range.filter _).sublist (List.take_sublist _ _)
  have hmem : orderedDraws.page 4 5 ∈ (orderedPages [0]).mapIdx orderedDraws.page := by
    apply List.mem_of_getElem?
    rw [List.getElem?_mapIdx, hget]
    rfl
  have hread := replay_fastSpaceWrite sampleOpened.space 0 ((orderedPages [0]).mapIdx orderedDraws.page)
  rw [Nat.zero_mod] at hread
  have hcache : (sampleOpened.renewed [0]).space.cache = recordCache ((orderedPages [0]).mapIdx orderedDraws.page) := by
    simp only [Store.renewed, Space.fastSpaceRead, hread]
  rw [Space.candidates, hcache, List.mem_filter,
    (recordCache_perm (orderedDraws.distinct_mapIdx hnodup)).mem_iff, List.mem_filter]
  exact ⟨⟨hmem, rfl⟩, rfl⟩

/-- A page is taken for a virtual page and not synced; a new pool has it again, and the next
allocation may return it. -/
theorem unsynced_page_is_allocated_again :
    Run (fun d event d' => exec 993 event d = .ok () d') sampleStore
        (sampleOpening ++ [.ensure keepFirst orderedDraws 1]) (sampleOpened.renewed [0]) ∧
      ∃ draw pp s', tryFastSpaceAlloc 0 draw (sampleOpened.renewed [0]).space = .ok (some pp) s' ∧
        (sampleOpened.renewed [0]).Refers pp.number := by
  have hensure : exec 993 (.ensure keepFirst orderedDraws 1) sampleOpened = .ok () (sampleOpened.renewed [0]) :=
    exec_ensure rfl sampleOpened_used (by decide) (by decide) (by decide +kernel)
  refine ⟨.cons sample_open (.cons sample_reserve (.cons hensure .nil)), ?_⟩
  have hnext : ((sampleOpened.renewed [0]).space.searchLog 0).isSome = true := rfl
  obtain ⟨draw, s', hok⟩ := exists_alloc_of_mem hnext samplePage_renewed
  refine ⟨draw, _, s', hok, sampleBasis, List.mem_singleton_self _, 8128, ?_⟩
  exact ⟨⟨8128, sampleTaken⟩, List.mem_cons_self, rfl, rfl, rfl⟩

end BaochipXous.FastSpace
