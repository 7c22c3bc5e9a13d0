import BaochipXous.LibProg
import BaochipXous.LibRely

/-!
Updates of the page table of the PDDB with the buffer for make before break: a patch copies a page
with the new entry into a buffer page and erases it in the table, the next one copies it back. A
page is taken for erased if its first block is all ones; a scan sees the old table or the new one as
long as no page begins with such a block.
-/

namespace BaochipXous.PageTable

open Prog Labelled Function

def pageSize : Nat := 4096

def blockSize : Nat := 16

def entriesPerPage : Nat := 256

def mbbbPages : Nat := 10

abbrev Page := Nat → UInt8

def blankPage : Page := fun _ => 0xff

def isBlank (page : Page) : Bool := (List.range blockSize).all fun i => page i == 0xff

/-- The pages of the table and of the buffer, and the page patches that are left before power fails. -/
structure Flash where
  pt : Nat → Page
  mbbb : Nat → Page
  power : Nat

open Flash

inductive Halt where
  | powerLoss

abbrev FlashM := Prog Halt Flash

/-- A page patch is atomic. -/
def patchWith (write : Flash → Flash) : FlashM Unit := do
  if (← gets (·.power)) = 0 then fail .powerLoss
  else modify fun f => write { f with power := f.power - 1 }

def patchPt (index : Nat) (page : Page) : FlashM Unit :=
  patchWith fun f => { f with pt := update f.pt index page }

def patchMbbb (index : Nat) (page : Page) : FlashM Unit :=
  patchWith fun f => { f with mbbb := update f.mbbb index page }

section

-- the entries of the table; its last page may be a part of one
variable (entries : Nat)

def tablePages : Nat := (entries + (entriesPerPage - 1)) / entriesPerPage

def Flash.mbbbRetrieve (f : Flash) : Option Page :=
  ((List.range mbbbPages).find? fun i => !isBlank (f.mbbb i)).map f.mbbb

def mbbbErase : FlashM Unit :=
  forEach (List.range mbbbPages) fun index => do
    when (!isBlank (← gets (·.mbbb index))) (patchMbbb index blankPage)

def Flash.ptFindErasedSlot (f : Flash) : Option Nat :=
  (List.range (tablePages entries)).find? fun i => isBlank (f.pt i)

/-- Bring the page in the buffer back to the table, if it is still missing there. -/
def restoreMbbb : FlashM Unit := do
  match ← gets (·.mbbbRetrieve) with
  | none => pure ()
  | some mbbb => do
    match ← gets (·.ptFindErasedSlot entries) with
    | some erased => patchPt erased mbbb
    | none => pure ()
    mbbbErase

def overlay (page : Page) (offset : Nat) (data : List UInt8) : Page := fun i =>
  if offset ≤ i ∧ i < offset + data.length then data.getD (i - offset) 0 else page i

/-- `patch_pagetable`; `pick` is the random choice of a buffer page. -/
def patchPagetable (data : List UInt8) (offset pick : Nat) : FlashM Unit := do
  assert (decide (data.length + offset ≤ blockSize * entries))
  restoreMbbb entries
  let basePage := offset / pageSize
  let page ← gets (·.pt basePage)
  let baseOffset := offset % pageSize
  -- the slice of the local copy has to lie in the page
  assert (decide (baseOffset + data.length ≤ pageSize))
  patchMbbb (pick % mbbbPages) (overlay page baseOffset data)
  patchPt basePage blankPage

/-- A patch of one entry, as `pt_patch_mapping` and `pt_erase` make it. -/
structure Patch where
  entry : Fin entries
  block : List UInt8
  block_length : block.length = blockSize
  pick : Nat

variable {entries} in
def Patch.run (patch : Patch entries) : FlashM Unit :=
  patchPagetable entries patch.block (patch.entry * blockSize) patch.pick

end

/-- The page that `pt_scan_key` goes through for a page of the table. -/
def Flash.cleanPage (f : Flash) (index : Nat) : Page :=
  if isBlank (f.pt index) then f.mbbbRetrieve.getD (f.pt index) else f.pt index

/-- The block that the scan takes for an entry. -/
def Flash.seen (f : Flash) (entry : Nat) : List UInt8 :=
  (List.range blockSize).map fun i =>
    f.cleanPage (entry / entriesPerPage) (blockSize * (entry % entriesPerPage) + i)

section

variable {entries : Nat} {f f' : Flash}

variable {page : Page}

theorem isBlank_iff : isBlank page = true ↔ ∀ i < blockSize, page i = 0xff := by
  simp [isBlank]

theorem isBlank_blankPage : isBlank blankPage = true := isBlank_iff.mpr fun _ _ => rfl

/-- At most one page of the table is away, and then the buffer has it. -/
structure Sound (entries : Nat) (f : Flash) : Prop where
  one_away : ∀ p q, p < tablePages entries → q < tablePages entries → isBlank (f.pt p) = true →
    isBlank (f.pt q) = true → p = q
  one_copy : ∀ i j, i < mbbbPages → j < mbbbPages → isBlank (f.mbbb i) = false →
    isBlank (f.mbbb j) = false → i = j
  copied : ∀ p < tablePages entries, isBlank (f.pt p) = true →
    ∃ i < mbbbPages, isBlank (f.mbbb i) = false

def Complete (entries : Nat) (f : Flash) : Prop :=
  ∀ p < tablePages entries, isBlank (f.pt p) = false

def SameView (entries : Nat) (f f' : Flash) : Prop :=
  ∀ p < tablePages entries, f'.cleanPage p = f.cleanPage p

theorem SameView.trans {f'' : Flash} (h : SameView entries f f') (h' : SameView entries f' f'') :
    SameView entries f f'' := fun p hp => (h' p hp).trans (h p hp)

theorem mbbbRetrieve_eq_none : f.mbbbRetrieve = none ↔ ∀ i < mbbbPages, isBlank (f.mbbb i) = true := by
  simp [mbbbRetrieve]

theorem mbbbRetrieve_eq_some (h : f.mbbbRetrieve = some page) :
    ∃ i < mbbbPages, isBlank (f.mbbb i) = false ∧ page = f.mbbb i := by
  obtain ⟨i, hfind, rfl⟩ := Option.map_eq_some_iff.mp h
  have hmem := List.mem_of_find?_eq_some hfind
  have hblank := List.find?_some hfind
  exact ⟨i, List.mem_range.mp hmem, by simpa using hblank, rfl⟩

theorem mbbbRetrieve_of_copy {i : Nat} (hi : i < mbbbPages) (hcopy : isBlank (f.mbbb i) = false)
    (hone : ∀ j < mbbbPages, isBlank (f.mbbb j) = false → j = i) : f.mbbbRetrieve = some (f.mbbb i) := by
  cases hret : f.mbbbRetrieve with
  | none =>
    rw [mbbbRetrieve_eq_none.mp hret i hi] at hcopy
    contradiction
  | some page =>
    obtain ⟨j, hj, hblank, rfl⟩ := mbbbRetrieve_eq_some hret
    rw [hone j hj hblank]

theorem cleanPage_of_complete (h : Complete entries f) {p : Nat} (hp : p < tablePages entries) :
    f.cleanPage p = f.pt p := by
  rw [cleanPage, h p hp, if_neg Bool.false_ne_true]

theorem Sound.cleanPage_not_blank (h : Sound entries f) {p : Nat} (hp : p < tablePages entries) :
    isBlank (f.cleanPage p) = false := by
  rw [cleanPage]
  split
  · rename_i haway
    obtain ⟨i, hi, hcopy⟩ := h.copied p hp haway
    rwa [mbbbRetrieve_of_copy hi hcopy fun j hj hj' => h.one_copy j i hj hi hj' hcopy]
  · rename_i hpresent
    simpa using hpresent

theorem Complete.sound (h : Complete entries f)
    (hone : ∀ i j, i < mbbbPages → j < mbbbPages → isBlank (f.mbbb i) = false →
      isBlank (f.mbbb j) = false → i = j) : Sound entries f where
  one_away p q hp _ haway := by
    rw [h p hp] at haway
    contradiction
  one_copy := hone
  copied p hp haway := by
    rw [h p hp] at haway
    contradiction

theorem sameView_of_complete (h : Complete entries f) (hpt : ∀ p < tablePages entries, f'.pt p = f.pt p) :
    SameView entries f f' := by
  have h' : Complete entries f' := fun p hp => by rw [hpt p hp, h p hp]
  intro p hp
  rw [cleanPage_of_complete h hp, cleanPage_of_complete h' hp, hpt p hp]

@[simp] theorem total_patchWith {Q : Unit → Flash → Prop} {E : Halt → Flash → Prop} (write : Flash → Flash) :
    Total (patchWith write) Q E f ↔ (f.power = 0 → E .powerLoss f) ∧
      (f.power ≠ 0 → Q () (write { f with power := f.power - 1 })) := by
  rw [patchWith, total_bind, total_gets, total_ite]
  rfl

/-- What a patch may leave when it is cut off: the table as it was. -/
def CutOff (entries : Nat) (f f' : Flash) : Prop := Sound entries f' ∧ SameView entries f f'

theorem mbbbErase_total (h : Sound entries f) (hcomplete : Complete entries f) :
    Total mbbbErase (fun _ f' => f'.pt = f.pt ∧ ∀ i < mbbbPages, isBlank (f'.mbbb i) = true)
      (fun _ f' => CutOff entries f f') f := by
  have hloop : ∀ (indices : List Nat) (f1 : Flash), f1.pt = f.pt →
      (∀ i < mbbbPages, i ∉ indices → isBlank (f1.mbbb i) = true) →
      (∀ i, isBlank (f1.mbbb i) = false → isBlank (f.mbbb i) = false) →
      Total (forEach indices fun index => do
          when (!isBlank (← gets (·.mbbb index))) (patchMbbb index blankPage))
        (fun _ f' => f'.pt = f.pt ∧ ∀ i < mbbbPages, isBlank (f'.mbbb i) = true)
        (fun _ f' => CutOff entries f f') f1 := by
    intro indices
    induction indices with
    | nil => exact fun f1 hpt hdone _ => ⟨hpt, fun i hi => hdone i hi List.not_mem_nil⟩
    | cons index rest ih =>
      intro f1 hpt hdone hless
      have hsound : CutOff entries f f1 := by
        have hcomplete1 : Complete entries f1 := fun p hp => by rw [hpt, hcomplete p hp]
        refine ⟨hcomplete1.sound fun i j hi hj hi' hj' => h.one_copy i j hi hj (hless i hi') (hless j hj'), ?_⟩
        exact sameView_of_complete hcomplete fun p _ => by rw [hpt]
      rw [forEach, total_bind, total_bind, total_gets, total_when]
      constructor
      · intro _
        rw [patchMbbb, total_patchWith]
        refine ⟨fun _ => hsound, fun _ => ?_⟩
        apply ih
        · exact hpt
        · intro i hi hrest
          by_cases hsame : i = index
          · subst hsame
            simp only [update_self]
            exact isBlank_blankPage
          · simp only [update_of_ne hsame]
            exact hdone i hi (by simp [hsame, hrest])
        · intro i hblank
          by_cases hsame : i = index
          · subst hsame
            simp only [update_self, isBlank_blankPage] at hblank
            contradiction
          · simp only [update_of_ne hsame] at hblank
            exact hless i hblank
      · intro hblank
        apply ih f1 hpt _ hless
        intro i hi hrest
        by_cases hsame : i = index
        · subst hsame
          simpa using hblank
        · exact hdone i hi (by simp [hsame, hrest])
  apply hloop _ f rfl
  · intro i hi hnot
    exact absurd (List.mem_range.mpr hi) hnot
  · exact fun _ h => h

theorem restoreMbbb_total (h : Sound entries f) :
    Total (restoreMbbb entries) (fun _ f' => Complete entries f' ∧ SameView entries f f' ∧
        ∀ i < mbbbPages, isBlank (f'.mbbb i) = true) (fun _ f' => CutOff entries f f') f := by
  rw [restoreMbbb, total_bind, total_gets]
  cases hret : f.mbbbRetrieve with
  | none =>
    have hempty := mbbbRetrieve_eq_none.mp hret
    refine ⟨?_, fun _ _ => rfl, hempty⟩
    intro p hp
    cases haway : isBlank (f.pt p) with
    | false => rfl
    | true =>
      obtain ⟨i, hi, hcopy⟩ := h.copied p hp haway
      rw [hempty i hi] at hcopy
      contradiction
  | some page =>
    obtain ⟨i, hi, hcopy, rfl⟩ := mbbbRetrieve_eq_some hret
    -- the erasure at the end, from a complete table with the same view
    have herase : ∀ f1 : Flash, Sound entries f1 → Complete entries f1 → SameView entries f f1 → Total mbbbErase
          (fun _ f' => Complete entries f' ∧ SameView entries f f' ∧ ∀ i < mbbbPages, isBlank (f'.mbbb i) = true)
          (fun _ f' => CutOff entries f f') f1 := by
      intro f1 hsound hcomplete hview
      refine (mbbbErase_total hsound hcomplete).mono ?_ ?_
      · rintro _ f' ⟨hpt, hempty⟩
        refine ⟨fun p hp => by rw [hpt, hcomplete p hp], hview.trans ?_, hempty⟩
        exact sameView_of_complete hcomplete fun p _ => by rw [hpt]
      · exact fun _ f' hcut => ⟨hcut.1, hview.trans hcut.2⟩
    rw [total_bind, total_gets]
    cases hslot : f.ptFindErasedSlot entries with
    | none =>
      have hcomplete : Complete entries f := by
        intro p hp
        have hnone := List.find?_eq_none.mp hslot p (List.mem_range.mpr hp)
        simpa using hnone
      exact herase f h hcomplete fun _ _ => rfl
    | some erased =>
      rw [ptFindErasedSlot] at hslot
      have herased := List.find?_some hslot
      have hlt : erased < tablePages entries := List.mem_range.mp (List.mem_of_find?_eq_some hslot)
      rw [total_bind, patchPt, total_patchWith]
      refine ⟨fun _ => ⟨h, fun _ _ => rfl⟩, fun _ => ?_⟩
      have hcomplete : Complete entries { f with pt := update f.pt erased (f.mbbb i), power := f.power - 1 } := by
        intro p hp
        by_cases hsame : p = erased
        · subst hsame
          simp only [update_self]
          exact hcopy
        · simp only [update_of_ne hsame]
          cases haway : isBlank (f.pt p) with
          | false => rfl
          | true => exact absurd (h.one_away p erased hp hlt haway herased) hsame
      apply herase _ (hcomplete.sound h.one_copy) hcomplete
      intro p hp
      rw [cleanPage_of_complete hcomplete hp, cleanPage]
      by_cases hsame : p = erased
      · subst hsame
        rw [if_pos herased, hret]
        exact update_self _ _ _
      · have hpresent := hcomplete p hp
        simp only [update_of_ne hsame] at hpresent ⊢
        rw [hpresent, if_neg Bool.false_ne_true]

def Replaced (entries base : Nat) (page : Page) (f f' : Flash) : Prop :=
  ∀ p < tablePages entries, f'.cleanPage p = if p = base then page else f.cleanPage p

/-- A patch of a page whose first block does not become a block of ones takes effect with its last
page patch. -/
theorem patchPagetable_total (h : Sound entries f) {data : List UInt8} {offset : Nat} (pick : Nat)
    (hfits : data.length + offset ≤ blockSize * entries)
    (hpage : offset % pageSize + data.length ≤ pageSize) (hbase : offset / pageSize < tablePages entries)
    (hfirst : isBlank (overlay (f.cleanPage (offset / pageSize)) (offset % pageSize) data) = false) :
    Total (patchPagetable entries data offset pick) (fun _ f' => Sound entries f' ∧ Replaced entries (offset / pageSize)
        (overlay (f.cleanPage (offset / pageSize)) (offset % pageSize) data) f f')
      (fun _ f' => CutOff entries f f') f := by
  rw [patchPagetable, total_bind, total_assert]
  refine ⟨by simpa using hfits, ?_⟩
  refine (restoreMbbb_total h).bind ?_
  rintro _ f1 ⟨hcomplete, hview, hempty⟩
  have hsame : f1.pt (offset / pageSize) = f.cleanPage (offset / pageSize) := by
    rw [← hview _ hbase, cleanPage_of_complete hcomplete hbase]
  rw [total_bind, total_gets, hsame]
  simp only [total_bind, total_assert]
  refine ⟨by simpa using hpage, ?_⟩
  -- the copy in the buffer, with the table as it was
  have hsound1 : Sound entries f1 := hcomplete.sound fun i j hi _ hi' => by
    rw [hempty i hi] at hi'
    contradiction
  rw [patchMbbb, total_patchWith]
  refine ⟨fun _ => ⟨hsound1, hview⟩, fun _ => ?_⟩
  generalize hpick : pick % mbbbPages = slot
  have hslot : slot < mbbbPages := by
    rw [← hpick]
    exact Nat.mod_lt _ (by decide)
  generalize overlay (f.cleanPage (offset / pageSize)) (offset % pageSize) data = page at hfirst ⊢
  have hcopies : ∀ i < mbbbPages, isBlank (update f1.mbbb slot page i) = false → i = slot := by
    intro i hi hcopy
    by_contra hne
    rw [update_of_ne hne, hempty i hi] at hcopy
    contradiction
  have hone : ∀ i j, i < mbbbPages → j < mbbbPages → isBlank (update f1.mbbb slot page i) = false →
      isBlank (update f1.mbbb slot page j) = false → i = j :=
    fun i j hi hj hi' hj' => (hcopies i hi hi').trans (hcopies j hj hj').symm
  rw [patchPt, total_patchWith]
  constructor
  · intro _
    refine ⟨Complete.sound hcomplete hone, hview.trans ?_⟩
    exact sameView_of_complete hcomplete fun _ _ => rfl
  · intro _
    have haway : ∀ p < tablePages entries, isBlank (update f1.pt (offset / pageSize) blankPage p) = true →
        p = offset / pageSize := by
      intro p hp hblank
      by_contra hne
      rw [update_of_ne hne, hcomplete p hp] at hblank
      contradiction
    constructor
    · refine ⟨fun p q hp hq hp' hq' => (haway p hp hp').trans (haway q hq hq').symm, hone, ?_⟩
      intro p _ _
      exact ⟨slot, hslot, by simpa using hfirst⟩
    · intro p hp
      split
      · rename_i hp'
        subst hp'
        rw [cleanPage]
        simp only [update_self, isBlank_blankPage, if_true]
        rw [mbbbRetrieve_of_copy hslot (by simpa using hfirst) hcopies]
        simp
      · rename_i hne
        rw [← hview p hp, cleanPage_of_complete hcomplete hp, cleanPage]
        simp only [update_of_ne hne, hcomplete p hp]
        rw [if_neg Bool.false_ne_true]

/-- The patch does not put a block of ones at the beginning of a page. -/
def Patch.Visible (patch : Patch entries) : Prop :=
  (patch.entry : Nat) % entriesPerPage = 0 → patch.block ≠ List.replicate blockSize 0xff

theorem div_lt_tablePages {entry : Nat} (h : entry < entries) : entry / entriesPerPage < tablePages entries := by
  rw [tablePages, entriesPerPage]
  omega

theorem Patch.basePage (patch : Patch entries) : patch.entry * blockSize / pageSize = patch.entry / entriesPerPage := by
  simp only [blockSize, pageSize, entriesPerPage]
  omega

theorem Patch.baseOffset (patch : Patch entries) :
    patch.entry * blockSize % pageSize = blockSize * (patch.entry % entriesPerPage) := by
  simp only [blockSize, pageSize, entriesPerPage]
  omega

variable {patch : Patch entries}

theorem Patch.Visible.overlay_not_blank (h : patch.Visible) (hpage : isBlank page = false) :
    isBlank (overlay page (blockSize * (patch.entry % entriesPerPage)) patch.block) = false := by
  have hlen := patch.block_length
  by_cases hzero : (patch.entry : Nat) % entriesPerPage = 0
  · -- the entry is the first one of its page
    cases hblank : isBlank (overlay page (blockSize * (patch.entry % entriesPerPage)) patch.block) with
    | false => rfl
    | true =>
      refine absurd ?_ (h hzero)
      rw [isBlank_iff] at hblank
      apply List.ext_getElem
      · rw [hlen, List.length_replicate]
      · intro i hi _
        have hbyte := hblank i (hlen ▸ hi)
        rw [overlay, hzero, if_pos ⟨by omega, by omega⟩] at hbyte
        rw [List.getElem_replicate]
        simpa [hi] using hbyte
  · -- the first block stays as it is
    have hsame : ∀ i < blockSize, overlay page (blockSize * (patch.entry % entriesPerPage)) patch.block i = page i := by
      intro i hi
      rw [overlay, if_neg]
      simp only [blockSize] at hi ⊢
      omega
    cases hblank : isBlank (overlay page (blockSize * (patch.entry % entriesPerPage)) patch.block) with
    | false => rfl
    | true =>
      rw [isBlank_iff] at hblank
      have hall : isBlank page = true := isBlank_iff.mpr fun i hi => by rw [← hsame i hi, hblank i hi]
      rw [hpage] at hall
      contradiction

/-- Every entry that the scan sees is as before. -/
def Before (entries : Nat) (f f' : Flash) : Prop := ∀ i < entries, f'.seen i = f.seen i

/-- Every entry that the scan sees is as before, but for the one of the patch. -/
def Patch.After (patch : Patch entries) (f f' : Flash) : Prop :=
  ∀ i < entries, f'.seen i = if i = patch.entry then patch.block else f.seen i

theorem SameView.before (h : SameView entries f f') : Before entries f f' := by
  intro i hi
  rw [seen, seen, h _ (div_lt_tablePages hi)]

theorem Patch.after_of_replaced (h : Replaced entries (patch.entry / entriesPerPage)
      (overlay (f.cleanPage (patch.entry / entriesPerPage))
        (blockSize * (patch.entry % entriesPerPage)) patch.block) f f') : patch.After f f' := by
  intro i hi
  have hlen := patch.block_length
  rw [seen, seen, h _ (div_lt_tablePages hi)]
  by_cases hentry : i = patch.entry
  · rw [if_pos hentry, if_pos (by rw [hentry])]
    apply List.ext_getElem
    · rw [List.length_map, List.length_range, hlen]
    · intro k hk hk'
      rw [List.getElem_map, List.getElem_range, hentry, overlay, if_pos ⟨by omega, by omega⟩]
      simp [hk']
  · rw [if_neg hentry]
    apply List.map_congr_left
    intro k hk
    rw [List.mem_range] at hk
    split
    · rename_i hpage
      rw [overlay, if_neg, hpage]
      -- another entry of the same page has other bytes
      simp only [blockSize, entriesPerPage] at *
      omega
    · rfl

theorem Patch.run_total (h : Sound entries f) (hvisible : patch.Visible) :
    Total patch.run (fun _ f' => Sound entries f' ∧ patch.After f f')
      (fun _ f' => Sound entries f' ∧ Before entries f f') f := by
  have hlen := patch.block_length
  have hentry := patch.entry.isLt
  have hbase := div_lt_tablePages hentry
  rw [run]
  refine (patchPagetable_total h patch.pick ?_ ?_ ?_ ?_).mono ?_ ?_
  · rw [hlen]
    simp only [blockSize]
    omega
  · rw [hlen]
    simp only [blockSize, pageSize]
    omega
  · rwa [patch.basePage]
  · rw [patch.basePage, patch.baseOffset]
    exact hvisible.overlay_not_blank (h.cleanPage_not_blank hbase)
  · rintro _ f' ⟨hsound, hreplaced⟩
    rw [patch.basePage, patch.baseOffset] at hreplaced
    exact ⟨hsound, after_of_replaced hreplaced⟩
  · exact fun _ f' hcut => ⟨hcut.1, hcut.2.before⟩

/-- A patch with the number of page patches that power lasts for. -/
structure Event (entries : Nat) where
  patch : Patch entries
  power : Nat

/-- The flash after the patch, cut off or not. -/
def Event.after (event : Event entries) (f : Flash) : Option Flash :=
  match event.patch.run { f with power := event.power } with
  | .ok _ f' => some f'
  | .err _ f' => some f'
  | .panic => none

/-- A formatted table: random blocks, and an empty buffer. -/
structure Formatted (entries : Nat) (f : Flash) : Prop where
  complete : Complete entries f
  empty : ∀ i < mbbbPages, isBlank (f.mbbb i) = true

theorem Formatted.sound (h : Formatted entries f) : Sound entries f :=
  h.complete.sound fun i j hi _ hi' => by
    rw [h.empty i hi] at hi'
    contradiction

theorem Event.after_cases (h : Sound entries f) {event : Event entries} (hvisible : event.patch.Visible) :
    ∃ f', event.after f = some f' ∧ Sound entries f' ∧ (Before entries f f' ∨ event.patch.After f f') := by
  have htotal := Patch.run_total (f := { f with power := event.power }) ⟨h.one_away, h.one_copy, h.copied⟩ hvisible
  rw [after]
  cases hrun : event.patch.run { f with power := event.power } with
  | ok a f' =>
    have hok := htotal.post.ok hrun
    exact ⟨f', rfl, hok.1, .inr hok.2⟩
  | err e f' =>
    have herr := htotal.post.err hrun
    exact ⟨f', rfl, herr.1, .inl herr.2⟩
  | panic => exact absurd hrun htotal.ne_panic

def Step (f : Flash) (event : Event entries) (f' : Flash) : Prop :=
  event.patch.Visible ∧ event.after f = some f'

/-- What a sequence of patches keeps. -/
structure Kept (start : Flash) (events : List (Event entries)) (f : Flash) : Prop where
  sound : Sound entries f
  others : ∀ i < entries, (∀ event ∈ events, (event.patch.entry : Nat) ≠ i) → f.seen i = start.seen i

theorem Kept.step {start : Flash} {events : List (Event entries)} (h : Kept start events f)
    {event : Event entries} (hstep : Step f event f') : Kept start (events ++ [event]) f' := by
  obtain ⟨f1, hafter, hsound, hcases⟩ := Event.after_cases h.sound hstep.1
  rw [hstep.2, Option.some.injEq] at hafter
  subst hafter
  refine ⟨hsound, ?_⟩
  intro i hi hnot
  have hprev := h.others i hi fun e he => hnot e (List.mem_append_left _ he)
  have hne : i ≠ event.patch.entry := (hnot event (List.mem_append_right _ List.mem_cons_self)).symm
  rcases hcases with hbefore | hafter
  · rw [hbefore i hi, hprev]
  · rw [hafter i hi, if_neg hne, hprev]

/-- After every sequence of patches of a formatted table, cut off or not, the entries that no patch
was for are as they were; a further patch, cut off or not, leaves the table of before or the one
with its entry. -/
theorem table_is_seen_before_or_after (entries : Nat) (start f : Flash) (events : List (Event entries))
    (hstart : Formatted entries start) (run : Run Step start events f) :
    (∀ i < entries, (∀ event ∈ events, (event.patch.entry : Nat) ≠ i) → f.seen i = start.seen i) ∧
    ∀ event : Event entries, event.patch.Visible →
      ∃ f', event.after f = some f' ∧ (Before entries f f' ∨ event.patch.After f f') := by
  have hkept : Kept start events f := by
    refine run.history_invariant ⟨hstart.sound, fun _ _ _ => rfl⟩ ?_
    exact fun _ _ _ _ h hstep => h.step hstep
  refine ⟨hkept.others, fun event hvisible => ?_⟩
  obtain ⟨f', hafter, -, hcases⟩ := Event.after_cases hkept.sound hvisible
  exact ⟨f', hafter, hcases⟩

end

/-- A table of zeros with an empty buffer. -/
def sampleFlash : Flash where
  pt _ _ := 0
  mbbb _ := blankPage
  power := 0

theorem sampleFlash_formatted (entries : Nat) : Formatted entries sampleFlash :=
  ⟨fun _ _ => rfl, fun _ _ => rfl⟩

/-- A patch of an entry of a table of four pages with the same byte in all of its block. -/
def sampleEvent (entry : Fin 1024) (byte : UInt8) : Event 1024 where
  patch := { entry, block := List.replicate 16 byte, block_length := rfl, pick := 3 }
  power := 100

/-- A block of ones at the beginning of a page makes the whole page go: neither the old nor the new
second entry is seen. -/
theorem block_of_ones_loses_a_page :
    ∃ f', (sampleEvent 0 0xff).after sampleFlash = some f' ∧
      ¬Before 1024 sampleFlash f' ∧ ¬(sampleEvent 0 0xff).patch.After sampleFlash f' := by
  have hseen : (((sampleEvent 0 0xff).after sampleFlash).map fun f' => f'.seen 1) =
      some (List.replicate 16 0xff) := rfl
  obtain ⟨f', hafter, hones⟩ := Option.map_eq_some_iff.mp hseen
  have hzero : sampleFlash.seen 1 = List.replicate 16 0 := rfl
  refine ⟨f', hafter, fun hbefore => ?_, fun hnew => ?_⟩
  · have hsame := hbefore 1 (by decide)
    rw [hones, hzero] at hsame
    contradiction
  · have hsame := hnew 1 (by decide)
    rw [hones, hzero] at hsame
    contradiction

/-- Two patches of a table of zeros, the second one cut off. -/
theorem cut_off_patch_is_before_or_after :
    ∃ f f', Run Step sampleFlash [sampleEvent 0 1] f ∧
      { sampleEvent 300 2 with power := 2 }.after f = some f' ∧
      (Before 1024 f f' ∨ (sampleEvent 300 2).patch.After f f') := by
  have hvisible : ∀ entry byte, byte ≠ 0xff → (sampleEvent entry byte).patch.Visible := by
    intro entry byte hbyte _ hall
    exact hbyte (List.replicate_right_injective (by decide) hall)
  obtain ⟨f, hafter, -⟩ := Event.after_cases (sampleFlash_formatted 1024).sound
    (hvisible 0 1 (by decide))
  have hrun : Run Step sampleFlash [sampleEvent 0 1] f :=
    .cons ⟨hvisible 0 1 (by decide), hafter⟩ .nil
  have htable := (table_is_seen_before_or_after 1024 sampleFlash f _ (sampleFlash_formatted 1024) hrun).2
    { sampleEvent 300 2 with power := 2 } (hvisible 300 2 (by decide))
  obtain ⟨f', hafter', hcases⟩ := htable
  exact ⟨f, f', hrun, hafter', hcases⟩

end BaochipXous.PageTable
