import BaochipXous.KernelMemoryFrame
import BaochipXous.KernelServices
import BaochipXous.KernelRules

/-!
What a transfer of memory has done when it fails. The pages are handed over in turn, so a page that
is missing is noticed after those before it are gone.
-/

namespace BaochipXous.Kernel

open Prog Machine

theorem mem_pages {lo hi x : Nat} : x ∈ pages lo hi ↔ lo ≤ x ∧ x < hi ∧ (x - lo) % pageSize = 0 := by
  simp only [pages, List.mem_range', pageSize]
  constructor
  · rintro ⟨i, hi, rfl⟩
    omega
  · rintro ⟨hlo, hhi, hstep⟩
    exact ⟨(x - lo) / 4096, by omega, by omega⟩

theorem mem_pages_zero {len offset : Nat} (h : offset ∈ pages 0 len) :
    offset < len ∧ offset % pageSize = 0 := (mem_pages.mp h).2

theorem vpn_aligned {virt : Nat} (h : virt % pageSize = 0) : virt - virt % pageSize = virt := by
  rw [h, Nat.sub_zero]

variable (m : Machine)

namespace Machine

/-- `ensure_page_exists_inner` finds no page at the address. -/
def pageMissing (address : Nat) : Bool :=
  let virt := address - address % pageSize
  decide (m.satp ≠ pid1 ∧ userAreaEnd ≤ address) || !m.rootValid virt ||
    (!(m.entry virt).valid && ((m.entry virt).flagsZero || (m.entry virt).s))

section

variable (m : Machine) (virt : Nat) (e : PTE)

@[simp] theorem setEntry_satp : (m.setEntry virt e).satp = m.satp := rfl

@[simp] theorem setEntry_current : (m.setEntry virt e).current = m.current := rfl

@[simp] theorem setEntry_l1 : (m.setEntry virt e).mem.l1 = m.mem.l1 := rfl

@[simp] theorem setEntry_same : (m.setEntry virt e).mem.pt m.satp (vpn virt) = e := by simp [setEntry]

@[simp] theorem setEntry_entry : (m.setEntry virt e).entry virt = e := setEntry_same m virt e

theorem setEntry_of_ne {q : PID} {v : Nat}
    (h : q ≠ m.satp ∨ v ≠ vpn virt) : (m.setEntry virt e).mem.pt q v = m.mem.pt q v := by
  rw [setEntry_pt, if_neg]
  tauto

end

/-- The active address space `src` has changed in the entry of `virt` at most; it was there, and it
has changed just when `changes` says so. -/
structure Turn (changes : PTE → Bool) (m m' : Machine) (virt : Nat) : Prop where
  satp : m'.satp = m.satp
  roots : m'.mem.l1 m.satp = m.mem.l1 m.satp
  others : ∀ v, v ≠ vpn virt → m'.mem.pt m.satp v = m.mem.pt m.satp v
  present : m.pageMissing virt = false
  kept : changes (m.entry virt) = false → m' = m
  changed : changes (m.entry virt) = true → m'.mem.pt m.satp (vpn virt) ≠ m.entry virt

end Machine

theorem allocPage_post (pid : PID) (m : Machine) :
    Post (allocPage pid) (fun _ m' => ∃ allocations lastRamPage,
        m' = { m with mem := { m.mem with allocations, lastRamPage } })
      (fun _ m' => m' = m) m := by
  unfold allocPage
  simp only [post_bind, post_gets, post_assert]
  intro _
  split
  · exact ⟨_, _, rfl⟩
  · rfl

theorem ensurePageExistsInner_post {virt : Nat} (hvirt : virt % pageSize = 0) (m : Machine) :
    Post (ensurePageExistsInner virt) (fun _ m' => m.Turn (fun e => !e.valid) m' virt ∧ m'.rootValid virt = true ∧
        (m'.entry virt).valid = true ∧ (m'.entry virt).s = (m.entry virt).s ∧ m'.current = m.current)
      (fun _ m' => m.pageMissing virt = true ∧ m' = m) m := by
  unfold ensurePageExistsInner
  simp only [post_bind, post_gets, post_ite, post_fail, post_pure, vpn_aligned hvirt, Bool.not_eq_true', and_true]
  have hmissing : m.pageMissing virt = true ↔ (m.satp ≠ pid1 ∧ userAreaEnd ≤ virt) ∨
      m.rootValid virt = false ∨ ((m.entry virt).valid = false ∧
        ((m.entry virt).flagsZero || (m.entry virt).s) = true) := by
    simp [pageMissing, vpn_aligned hvirt, or_assoc]
  refine ⟨fun h => hmissing.mpr (.inl h), fun huser =>
    ⟨fun hroot => hmissing.mpr (.inr (.inl hroot)), fun hroot => ⟨fun hvalid => ?_, fun hvalid =>
    ⟨fun hnone => ?_, fun hsome => ?_⟩⟩⟩⟩
  · refine ⟨⟨rfl, rfl, fun _ _ => rfl, ?_, fun _ => rfl, ?_⟩, by simpa using hroot, hvalid⟩
    · rw [← Bool.not_eq_true, hmissing]
      simp_all
    · simp [hvalid]
  · exact hmissing.mpr (.inr (.inr ⟨by simpa using hvalid, hnone⟩))
  · rw [post_unwrap]
    apply (allocPage_post _ m).mono
    · rintro page _ ⟨allocations, lastRamPage, rfl⟩
      rw [post_modify]
      refine ⟨⟨rfl, rfl, fun v hv => ?_, ?_, fun hkeep => ?_, fun _ => ?_⟩, ?_, by simp, by simp, rfl⟩
      · exact setEntry_of_ne _ _ _ (.inr hv)
      · rw [← Bool.not_eq_true, hmissing]
        simp_all
      · simp_all
      · intro hsame
        have hset := congrArg PTE.valid ((setEntry_same _ _ _).symm.trans hsame)
        exact hvalid (by rw [← hset])
      · exact Bool.eq_true_of_not_eq_false hroot
    · exact fun _ _ _ => trivial

/-- The address space `p`, unless it is the active one, is not touched by the memory manager. -/
theorem Machine.stable_other (p : PID) (entries : Nat → PTE) (roots : Nat → Bool) (a : ArchProcess) :
    Machine.Stable (fun m => m.satp ≠ p ∧ m.mem.pt p = entries ∧ m.mem.l1 p = roots ∧ m.arch p = a) (· ≠ p) where
  entry m virt e h := ⟨h.1, by simp [setEntry, h.1.symm, h.2.1], h.2.2.1, h.2.2.2⟩
  root m virt h := ⟨h.1, h.2.1, by simp [setRoot, h.1.symm, h.2.2.1], h.2.2.2⟩
  table m virt h := ⟨h.1, by simp [clearTable, h.1.symm, h.2.1], h.2.2.1, h.2.2.2⟩
  owners _ _ _ _ h := h
  arch m f h := ⟨h.1, h.2.1, h.2.2.1, by simp [updateArch, h.1.symm, h.2.2.2]⟩
  lends _ _ h := h
  space _ _ hq h := ⟨hq, h.2⟩

theorem pagetableEntry_post {virt : Nat} (hvirt : virt % pageSize = 0) {m : Machine}
    (hroot : m.rootValid virt = true) {Q : PTE → Machine → Prop} {E : Error → Machine → Prop} :
    Post (pagetableEntry virt) Q E m ↔ Q (m.entry virt) m := by
  have hfour : virt % 4 = 0 := by
    simp only [pageSize] at hvirt
    omega
  simp [pagetableEntry, hfour, hroot]

/-- What is done in the active address space when it gives away the page at `virt`. -/
structure Machine.Given (m m' : Machine) (virt : Nat) : Prop where
  satp : m'.satp = m.satp
  roots : m'.mem.l1 m.satp = m.mem.l1 m.satp
  others : ∀ v, v ≠ vpn virt → m'.mem.pt m.satp v = m.mem.pt m.satp v
  kept : (m.entry virt).s = true → m' = m
  gone : (m.entry virt).s = false →
    m'.mem.pt m.satp (vpn virt) = .zero ∨ (m'.mem.pt m.satp (vpn virt)).s = true

section Give

variable {m : Machine} {virt destAddr : Nat} {dest : PID} (hvirt : virt % pageSize = 0)
  (hroot : m.rootValid virt = true) (hvalid : (m.entry virt).valid = true) (hdest : dest ≠ m.satp)

include hdest in
theorem mapElsewhere_post (pid : PID) (phys : Nat) (flags : MemoryFlags) (user : Bool)
    {α : Type} (result : Except Error Unit → Except Error α) :
    Leaves (do
        activateMapping dest
        let result' ← attempt (mapPageInner pid phys destAddr flags user)
        activateMapping m.satp
        ofExcept (result result'))
      (fun m' => m'.satp = m.satp ∧ m'.mem.pt m.satp = m.mem.pt m.satp ∧ m'.mem.l1 m.satp = m.mem.l1 m.satp) m := by
  have hstable := stable_other m.satp (m.mem.pt m.satp) (m.mem.l1 m.satp) (m.arch m.satp)
  have hkeeps := hstable.mapPageInner pid phys destAddr flags user { m with satp := dest } ⟨hdest, rfl, rfl, rfl⟩
  simp only [post_bind, post_activateMapping, post_attempt, post_ofExcept]
  apply hkeeps.mono <;> exact fun _ _ h => ⟨fun _ _ => ⟨trivial, h.2.1, h.2.2.1⟩, fun _ _ => ⟨trivial, h.2.1, h.2.2.1⟩⟩

include hvirt hroot hvalid hdest

theorem movePage_post (destPid : PID) :
    Leaves (movePage m.satp m.satp virt destPid dest destAddr) (fun m' => m.Given m' virt) m := by
  unfold Leaves movePage
  rw [post_bind, post_gets, post_bind, post_ofExcept]
  cases hs : (m.entry virt).s with
  | true =>
    have hphys : m.virtToPhys virt = .error .shareViolation := by simp [virtToPhys, hroot, hs]
    rw [hphys]
    exact ⟨nofun, fun _ _ => ⟨rfl, rfl, fun _ _ => rfl, fun _ => rfl, by simp [hs]⟩⟩
  | false =>
    have hphys : m.virtToPhys virt = .ok (m.entry virt).phys := by
      simp [virtToPhys, hroot, hs, hvalid]
    rw [hphys]
    refine ⟨fun phys _ => ?_, nofun⟩
    rw [post_bind, movePageInner, post_bind, pagetableEntry_post hvirt hroot, post_ite]
    refine ⟨by simp [hvalid], fun _ => ?_⟩
    have hcleared : m.Given (m.setEntry virt .zero) virt :=
      ⟨rfl, rfl, fun v hv => setEntry_of_ne _ _ _ (.inr hv), by simp [hs], fun _ => by simp⟩
    have hgiven : ∀ m' : Machine, m'.satp = m.satp ∧ m'.mem.pt m.satp = (m.setEntry virt .zero).mem.pt m.satp ∧
        m'.mem.l1 m.satp = m.mem.l1 m.satp → m.Given m' virt := by
      rintro m' ⟨h1, h2, h3⟩
      exact ⟨h1, h3, fun v hv => by rw [h2]; exact hcleared.others v hv, by simp [hs],
        fun h => by rw [h2]; exact hcleared.gone h⟩
    rw [post_bind, post_modify]
    apply (mapElsewhere_post (m := m.setEntry virt .zero) (by simpa using hdest) _ _ _ _ id).mono
    · intro _ m' hm'
      exact (keeps_claimReleaseMove (fun _ _ _ _ h => h) phys destPid (.move m.satp) m' hm').both hgiven
    · exact fun _ _ hm' => hgiven _ hm'

theorem lendPageInner_post (destPid : PID) (isMutable : Bool) :
    Leaves (lendPageInner m.satp virt destPid dest destAddr isMutable) (fun m' => m.Given m' virt) m := by
  unfold Leaves lendPageInner
  rw [post_bind, pagetableEntry_post hvirt hroot, post_ite]
  refine ⟨by simp [hvalid], fun _ => ?_⟩
  rw [post_ite]
  refine ⟨fun hs => ⟨rfl, rfl, fun _ _ => rfl, fun _ => rfl, by simp [hs]⟩, fun hs => ?_⟩
  rw [post_bind, post_modify]
  refine (mapElsewhere_post (by exact hdest) _ _ _ _ _).mono ?_ ?_
  all_goals
    rintro _ m' ⟨h1, h2, h3⟩
    refine ⟨h1, h3, fun v hv => ?_, by simp [hs], fun _ => .inr ?_⟩
    · rw [show m'.mem.pt m.satp = _ from h2]
      exact setEntry_of_ne _ _ _ (.inr hv)
    · rw [show m'.mem.pt m.satp = _ from h2]
      exact congrArg PTE.s (setEntry_same _ _ _)

end Give

namespace Machine

/-- The pages at `virts` have had their turn since the state `m`. -/
structure Handed (changes : PTE → Bool) (m : Machine) (virts : List Nat) (m' : Machine) : Prop where
  satp : m'.satp = m.satp
  roots : m'.mem.l1 m.satp = m.mem.l1 m.satp
  others : ∀ v, (∀ virt ∈ virts, v ≠ vpn virt) → m'.mem.pt m.satp v = m.mem.pt m.satp v
  present : ∀ virt ∈ virts, m.pageMissing virt = false
  kept : (∀ virt ∈ virts, changes (m.entry virt) = false) → m' = m
  changed : ∀ virt ∈ virts, changes (m.entry virt) = true →
    m'.mem.pt m.satp (vpn virt) ≠ m.entry virt

variable {changes : PTE → Bool} {m m' m'' : Machine} {virts : List Nat} {virt : Nat}

theorem Handed.nil : m.Handed changes [] m := ⟨rfl, rfl, fun _ _ => rfl, nofun, fun _ => rfl, nofun⟩

theorem Handed.entry_eq (h : m.Handed changes virts m') (hnew : ∀ v ∈ virts, vpn virt ≠ vpn v) :
    m'.entry virt = m.entry virt := by
  rw [entry, entry, h.satp]
  exact h.others (vpn virt) hnew

theorem Handed.pageMissing_eq (h : m.Handed changes virts m') (hvirt : virt % pageSize = 0)
    (hnew : ∀ v ∈ virts, vpn virt ≠ vpn v) : m'.pageMissing virt = m.pageMissing virt := by
  simp only [pageMissing, vpn_aligned hvirt, rootValid, h.satp, h.roots, h.entry_eq hnew]

theorem Handed.turn (h : m.Handed changes virts m') (hvirt : virt % pageSize = 0)
    (hnew : ∀ v ∈ virts, vpn virt ≠ vpn v) (hturn : m'.Turn changes m'' virt) :
    m.Handed changes (virts ++ [virt]) m'' := by
  have hsatp := h.satp
  have hentry := h.entry_eq hnew
  have hothers := hturn.others
  have hchanged := hturn.changed
  rw [hsatp] at hothers hchanged
  rw [hentry] at hchanged
  refine ⟨hturn.satp.trans hsatp, ?_, fun v hv => ?_, fun v hv => ?_, fun hkeep => ?_, fun v hv hchange => ?_⟩
  · have hroots := hturn.roots
    rw [hsatp] at hroots
    exact hroots.trans h.roots
  · rw [hothers v (hv virt (by simp))]
    exact h.others v fun w hw => hv w (by simp [hw])
  · rcases List.mem_append.mp hv with hv | hv
    · exact h.present v hv
    · rw [List.mem_singleton.mp hv, ← h.pageMissing_eq hvirt hnew]
      exact hturn.present
  · have hprev := h.kept fun w hw => hkeep w (by simp [hw])
    rw [← hprev]
    exact hturn.kept (hentry ▸ hkeep virt (by simp))
  · rcases List.mem_append.mp hv with hv | hv
    · rw [hothers (vpn v) (hnew v hv).symm]
      exact h.changed v hv hchange
    · obtain rfl := List.mem_singleton.mp hv
      exact hchanged hchange

/-- A page is missing, and one before it is changed before that is noticed. -/
def tears (changes : PTE → Bool) (m : Machine) (virts : List Nat) : Bool :=
  virts.any m.pageMissing &&
    (virts.takeWhile fun virt => !m.pageMissing virt).any fun virt => changes (m.entry virt)

theorem tears_append (rest : List Nat) (hpresent : ∀ v ∈ virts, m.pageMissing v = false)
    (hmissing : m.pageMissing virt = true) :
    m.tears changes (virts ++ virt :: rest) = virts.any fun virt => changes (m.entry virt) := by
  have hwhile : (virts ++ virt :: rest).takeWhile (fun virt => !m.pageMissing virt) = virts := by
    rw [List.takeWhile_append_of_pos (by simpa using hpresent), List.takeWhile_cons]
    simp [hmissing]
  simp [tears, hwhile, hmissing]

theorem Handed.unless (h : m.Handed changes virts m') :
    ((virts.any fun virt => changes (m.entry virt)) = false → m' = m) ∧
      ((virts.any fun virt => changes (m.entry virt)) = true → m'.mem.pt ≠ m.mem.pt) := by
  constructor
  · intro hkeep
    rw [List.any_eq_false] at hkeep
    exact h.kept fun virt hvirt => by simpa using hkeep virt hvirt
  · intro hchange hpt
    obtain ⟨virt, hvirt, hchange⟩ := List.any_eq_true.mp hchange
    exact h.changed virt hvirt hchange (by rw [hpt, entry])

/-- Where the memory of a message is put in the address space of its receiver. -/
def messagePlace (m : Machine) (dest : PID) (size : Nat) : Option Nat :=
  { m with satp := dest }.findFree size (m.arch dest).memMessageBase
    (wadd (m.arch dest).memMessageBase 0x400000) (m.arch dest).memMessageLast

/-- Where a transfer goes: to the given address, or to a place for a message. -/
def place (m : Machine) (dest : PID) (destVirt size : Nat) : Option Nat :=
  if destVirt = 0 then m.messagePlace dest size else some destVirt

end Machine

theorem findVirtualAddress_messages_post (dest : PID) (destVirt size : Nat) :
    Post (findVirtualAddress destVirt size .messages) (fun found m' => m.place dest destVirt size = some found ∧
        ∃ arch, m' = { m with satp := dest, arch := arch })
      (fun _ m' => m.place dest destVirt size = none ∧ m' = { m with satp := dest })
      { m with satp := dest } := by
  unfold findVirtualAddress place messagePlace
  rw [post_ite]
  refine ⟨fun hgiven => ⟨if_neg hgiven, m.arch, rfl⟩, fun hnull => ?_⟩
  rw [if_pos (not_not.mp hnull), post_bind, post_get]
  dsimp only
  rw [post_bind, post_ofOption]
  refine ⟨fun found hfound => ?_, fun hnone => ⟨hnone, rfl⟩⟩
  rw [post_bind, post_modify, post_pure]
  exact ⟨hfound, _, rfl⟩

section Transfer

variable {srcVirt len : Nat} (hsrc : srcVirt % pageSize = 0) (hlen : len < 2 ^ 32)
  {changes : PTE → Bool} {m m' : Machine}

include hsrc hlen in
theorem page_new {front rest : List Nat} {offset : Nat} (hsplit : pages 0 len = front ++ offset :: rest) :
    wadd srcVirt offset % pageSize = 0 ∧ ∀ v ∈ front.map (wadd srcVirt), vpn (wadd srcVirt offset) ≠ vpn v := by
  have hmem : offset ∈ pages 0 len := by simp [hsplit]
  have hoffset := mem_pages_zero hmem
  refine ⟨by simp only [wadd, pageSize] at *; omega, fun v hv heq => ?_⟩
  obtain ⟨other, hother, rfl⟩ := List.mem_map.mp hv
  have hsame : offset = other := by
    have := mem_pages_zero (show other ∈ pages 0 len by simp [hsplit, hother])
    simp only [vpn, wadd, pageSize] at *
    omega
  have hnodup : (pages 0 len).Nodup := List.nodup_range' pageSize (by decide)
  rw [hsplit, List.nodup_append] at hnodup
  exact hnodup.2.2 other hother offset (by simp) hsame.symm

/-- The pages up to a missing one have been handed over. -/
def Machine.StoppedAt (changes : PTE → Bool) (m : Machine) (srcVirt len : Nat) (m' : Machine) :
    Prop :=
  ∃ front offset rest, pages 0 len = front ++ offset :: rest ∧
    m.pageMissing (wadd srcVirt offset) = true ∧ m.Handed changes (front.map (wadd srcVirt)) m'

/-- A transfer that is stopped has changed a page table, if it tears the range, or nothing. -/
theorem Machine.StoppedAt.unless (h : m.StoppedAt changes srcVirt len m') :
    (m.tears changes ((pages 0 len).map (wadd srcVirt)) = false → m' = m) ∧
      (m.tears changes ((pages 0 len).map (wadd srcVirt)) = true → m'.mem.pt ≠ m.mem.pt) := by
  obtain ⟨front, offset, rest, hsplit, hmissing, hhanded⟩ := h
  rw [hsplit, List.map_append, List.map_cons, tears_append _ hhanded.present hmissing]
  exact hhanded.unless

theorem Machine.Handed.none_missing {virts : List Nat}
    (h : m.Handed changes virts m') : virts.any m.pageMissing = false := by
  rw [List.any_eq_false]
  intro virt hvirt
  rw [h.present virt hvirt]
  exact Bool.false_ne_true

theorem Machine.StoppedAt.some_missing (h : m.StoppedAt changes srcVirt len m') :
    ((pages 0 len).map (wadd srcVirt)).any m.pageMissing = true := by
  obtain ⟨front, offset, rest, hsplit, hmissing, -⟩ := h
  simp [hsplit, hmissing]

include hsrc hlen

theorem ensurePages_post (m : Machine) :
    Post (forEach (pages 0 len) fun offset => ensurePageExistsInner (wadd srcVirt offset))
      (fun _ m' => m.Handed (fun e => !e.valid) ((pages 0 len).map (wadd srcVirt)) m')
      (fun _ m' => m.StoppedAt (fun e => !e.valid) srcVirt len m') m := by
  apply post_forEach_done (I := fun done m' =>
    m.Handed (fun e => !e.valid) (done.map (wadd srcVirt)) m') (pages 0 len) []
  · intro front offset rest m' hsplit hm'
    obtain ⟨haligned, hnew⟩ := page_new hsrc hlen hsplit
    apply (ensurePageExistsInner_post haligned m').mono
    · rintro _ m'' ⟨hturn, -⟩
      rw [List.map_append]
      exact hm'.turn haligned hnew hturn
    · rintro _ m'' ⟨hmissing, rfl⟩
      exact ⟨front, offset, rest, hsplit, hm'.pageMissing_eq haligned hnew ▸ hmissing, hm'⟩
  · exact Machine.Handed.nil

omit hsrc hlen in
theorem Machine.Given.turn {m'' : Machine} {virt : Nat} (hvirt : virt % pageSize = 0)
    (hensured : m.Turn (fun e => !e.valid) m' virt) (hs : (m'.entry virt).s = (m.entry virt).s)
    (hgiven : m'.Given m'' virt) : m.Turn (fun e => !e.s) m'' virt := by
  have hpresent : (m.entry virt).valid = false → (m.entry virt).flagsZero = false ∧ (m.entry virt).s = false := by
    have hpresent := hensured.present
    simp only [pageMissing, vpn_aligned hvirt, Bool.or_eq_false_iff] at hpresent
    intro hinvalid
    simpa [hinvalid] using hpresent.2
  have hsatp := hensured.satp
  refine ⟨hgiven.satp.trans hsatp, ?_, fun v hv => ?_, hensured.present, fun hkeep => ?_, fun hchange hsame => ?_⟩
  · rw [← hensured.roots, ← hsatp]
    exact hgiven.roots
  · rw [← hensured.others v hv, ← hsatp]
    exact hgiven.others v hv
  · -- a page that is lent already is valid, so that neither step did anything
    have hlent : (m.entry virt).s = true := by simpa using hkeep
    have hvalid : (m.entry virt).valid = true := by
      by_contra hinvalid
      have hnot := (hpresent (by simpa using hinvalid)).2
      rw [hlent] at hnot
      contradiction
    rw [hgiven.kept (hs.trans hlent)]
    exact hensured.kept (by simp [hvalid])
  · have hlent : (m.entry virt).s = false := by simpa using hchange
    have hgone := hgiven.gone (hs.trans hlent)
    rw [hsatp, hsame] at hgone
    rcases hgone with hzero | hset
    · rw [hzero] at hpresent
      simp [PTE.zero, PTE.flagsZero] at hpresent
    · rw [hlent] at hset
      contradiction

/-- A program that hands over one page of the active address space. -/
def GivesPage (page : Nat → Nat → MM Unit) (src : PID) : Prop :=
  ∀ m virt destAddr, m.satp = src → virt % pageSize = 0 → m.rootValid virt = true →
    (m.entry virt).valid = true →
    Post (page virt destAddr) (fun _ m' => m.Given m' virt) (fun _ m' => m.Given m' virt) m

omit hsrc hlen in
theorem givesPage_move {src destPid : PID} (hne : destPid ≠ src) :
    GivesPage (fun virt dest => movePage src src virt destPid destPid dest) src := by
  rintro m virt dest rfl hvirt hroot hvalid
  exact movePage_post hvirt hroot hvalid hne destPid

omit hsrc hlen in
theorem givesPage_lend {src destPid : PID} (hne : destPid ≠ src) (isMutable : Bool) :
    GivesPage (fun virt dest => do
      let _ ← lendPageInner src virt destPid destPid dest isMutable) src := by
  rintro m virt dest rfl hvirt hroot hvalid
  rw [post_bind]
  exact lendPageInner_post hvirt hroot hvalid hne destPid isMutable

theorem handPages_post {page : Nat → Nat → MM Unit} (m : Machine) (hpage : GivesPage page m.satp) (destVirt : Nat) :
    Post (foldEach (pages 0 len) none fun error offset => do
        assert (wadd srcVirt offset % pageSize = 0)
        assert (wadd destVirt offset % pageSize = 0)
        ensurePageExistsInner (wadd srcVirt offset)
        keepError error (page (wadd srcVirt offset) (wadd destVirt offset)))
      (fun _ m' => m.Handed (fun e => !e.s) ((pages 0 len).map (wadd srcVirt)) m')
      (fun _ m' => m.StoppedAt (fun e => !e.s) srcVirt len m') m := by
  apply post_foldEach_done (I := fun done _ m' =>
    m.Handed (fun e => !e.s) (done.map (wadd srcVirt)) m') (pages 0 len) []
  · intro front offset rest error m' hsplit hm'
    obtain ⟨haligned, hnew⟩ := page_new hsrc hlen hsplit
    simp only [post_bind, post_assert]
    intro _ _
    apply (ensurePageExistsInner_post haligned m').mono
    · rintro _ m1 ⟨hturn, hroot, hvalid, hs, -⟩
      have hgives := hpage m1 _ (wadd destVirt offset) (hturn.satp.trans hm'.satp) haligned hroot hvalid
      have hnext : ∀ m2, m1.Given m2 (wadd srcVirt offset) →
          m.Handed (fun e => !e.s) ((front ++ [offset]).map (wadd srcVirt)) m2 := by
        intro m2 hgiven
        rw [List.map_append]
        exact hm'.turn haligned hnew (hgiven.turn haligned hturn hs)
      simp only [keepError, post_bind, post_attempt, post_pure]
      exact hgives.both hnext
    · rintro _ m1 ⟨hmissing, rfl⟩
      exact ⟨front, offset, rest, hsplit, hm'.pageMissing_eq haligned hnew ▸ hmissing, hm'⟩
  · exact Machine.Handed.nil

end Transfer

def Machine.SamePages (m m' : Machine) : Prop := m'.mem.pt = m.mem.pt ∧ m'.mem.l1 = m.mem.l1

variable (s : Core)

/-- A transfer begins, and is stopped after it has changed a page. -/
def Core.TearsTransfer (srcVirt : Nat) (destPid : PID) (len : Nat) : Prop :=
  if destPid = s.machine.current then
    s.machine.tears (fun e => !e.valid) ((pages 0 len).map (wadd srcVirt)) = true
  else
    s.Live destPid ∧ (s.machine.messagePlace destPid len).isSome ∧
      s.machine.tears (fun e => !e.s) ((pages 0 len).map (wadd srcVirt)) = true

def Core.TransferFits (srcVirt : Nat) (destPid : PID) (len : Nat) : Prop :=
  (destPid ≠ s.machine.current →
    s.Live destPid ∧ (s.machine.messagePlace destPid len).isSome) ∧
  ((pages 0 len).map (wadd srcVirt)).any s.machine.pageMissing = false

theorem Core.TransferFits.not_tears {s : Core} {srcVirt len : Nat} {destPid : PID}
    (h : s.TransferFits srcVirt destPid len) : ¬s.TearsTransfer srcVirt destPid len := by
  unfold TearsTransfer
  split <;> simp [tears, h.2]

/-- `TearsTransfer` for a transfer to a given address. -/
def Core.TearsAt (srcVirt : Nat) (destPid : PID) (destVirt len : Nat) : Prop :=
  if destPid = s.machine.current then
    s.machine.tears (fun e => !e.valid) ((pages 0 len).map (wadd srcVirt)) = true
  else
    s.Live destPid ∧ (s.machine.place destPid destVirt len).isSome ∧
      s.machine.tears (fun e => !e.s) ((pages 0 len).map (wadd srcVirt)) = true

/-- `TransferFits` for a transfer to a given address. -/
def Core.FitsAt (srcVirt : Nat) (destPid : PID) (destVirt len : Nat) : Prop :=
  (destPid ≠ s.machine.current →
    s.Live destPid ∧ (s.machine.place destPid destVirt len).isSome) ∧
  ((pages 0 len).map (wadd srcVirt)).any s.machine.pageMissing = false

/-- What a transfer that succeeds leaves as it is, and where the memory is then. -/
structure Core.Transferred (s s' : Core) (destPid : PID) (len srcVirt virt : Nat) : Prop where
  fits : s.TransferFits srcVirt destPid len
  processes : s'.processes = s.processes
  current : s'.machine.current = s.machine.current
  satp : s'.machine.satp = s.machine.satp
  place : virt = srcVirt ∨ s.machine.messagePlace destPid len = some virt

theorem Core.stable_scheduling (processes : PID → Process) (current : PID) :
    Core.Stable (fun s => s.processes = processes ∧ s.machine.current = current) fun _ => True where
  machine _ :=
    { entry := fun _ _ _ h => h
      root := fun _ _ h => h
      table := fun _ _ h => h
      owners := fun _ _ _ _ h => h
      arch := fun _ _ h => h
      lends := fun _ _ h => h
      space := fun _ _ _ h => h }
  current _ _ := trivial

theorem Machine.SamePages.entry_eq {m m' : Machine} (h : m.SamePages m') (hsatp : m'.satp = m.satp) :
    m'.entry = m.entry := by
  funext virt
  rw [entry, entry, hsatp, h.1]

theorem Machine.SamePages.pageMissing_eq {m m' : Machine} (h : m.SamePages m')
    (hsatp : m'.satp = m.satp) : m'.pageMissing = m.pageMissing := by
  have hroot : m'.rootValid = m.rootValid := by
    funext virt
    rw [rootValid, rootValid, hsatp, h.2]
  funext virt
  simp only [pageMissing, hsatp, hroot, h.entry_eq hsatp]

section Whole

variable {srcVirt len : Nat} {destPid : PID} {page : PID → Nat → Nat → MM Unit} {s : Core}
  (hsrc : srcVirt % pageSize = 0) (hlen : len < 2 ^ 32)
  (hsatp : s.machine.satp = s.machine.current) (hlive : s.Live s.machine.current)
  (hpage : destPid ≠ s.machine.current → GivesPage (page s.machine.current) s.machine.current)

include hsrc hlen hsatp hlive hpage

theorem transferMemory_pages (destVirt : Nat) :
    Post (transferMemory srcVirt destPid destVirt len page)
      (fun virt s' => s.FitsAt srcVirt destPid destVirt len ∧ s'.machine.satp = s.machine.satp ∧
        (virt = srcVirt ∨ s.machine.place destPid destVirt len = some virt))
      (fun _ s' => ¬s.FitsAt srcVirt destPid destVirt len ∧
        (¬s.TearsAt srcVirt destPid destVirt len → s'.machine.mem = s.machine.mem) ∧
        (s.TearsAt srcVirt destPid destVirt len → s'.machine.mem.pt ≠ s.machine.mem.pt)) s := by
  unfold transferMemory Core.TearsAt
  rw [post_bind, post_currentPid, post_ite]
  refine ⟨fun hself => ?_, fun hother => ?_⟩
  · rw [if_pos hself.symm, post_bind, post_withMachine]
    apply (ensurePages_post hsrc hlen s.machine).mono
    · exact fun _ m' h => ⟨⟨fun hne => absurd hself.symm hne, h.none_missing⟩, h.satp, .inl rfl⟩
    · intro _ m' h
      refine ⟨fun hfits => absurd h.some_missing (by simp [hfits.2]), fun hkeep => ?_, h.unless.2⟩
      rw [h.unless.1 (by simpa using hkeep)]
  · rw [if_neg (Ne.symm hother), post_bind, post_getProcess]
    refine ⟨fun _ => ?_, fun hdead => absurd hlive hdead⟩
    rw [post_bind, post_getProcess]
    refine ⟨fun hdest => ?_, fun hdead => ?_⟩
    · rw [post_withMachine, post_bind, post_activateMapping, post_bind, post_attempt]
      apply (findVirtualAddress_messages_post s.machine destPid destVirt len).mono
      · rintro found m1 ⟨hplace, arch, rfl⟩
        rw [post_bind, post_activateMapping, post_bind]
        set m1 : Machine := { s.machine with satp := s.machine.current, arch := arch } with hm1
        have hsame : s.machine.SamePages m1 := ⟨rfl, rfl⟩
        have hmissing := hsame.pageMissing_eq (show m1.satp = s.machine.satp from hsatp.symm)
        have htears (changes virts) : s.machine.tears changes virts = m1.tears changes virts := by
          rw [tears, tears, hmissing, hsame.entry_eq hsatp.symm]
        simp only [Core.FitsAt, hplace, hdest, htears, ← hmissing, Option.isSome_some, true_and, and_true, implies_true]
        apply (handPages_post hsrc hlen m1 (hpage (Ne.symm hother)) found).mono
        · intro error m2 h
          rw [post_bind, post_assert]
          exact fun _ => ⟨h.none_missing, h.satp.trans hsatp.symm, .inr rfl⟩
        · intro _ m2 h
          refine ⟨by simpa using h.some_missing, fun hkeep => ?_, h.unless.2⟩
          rw [h.unless.1 (by simpa using hkeep)]
      · rintro _ m1 ⟨hplace, rfl⟩
        rw [post_bind, post_activateMapping, post_fail]
        refine ⟨fun hfits => ?_, fun _ => rfl, fun h => by simp [hplace] at h⟩
        simpa [hplace] using (hfits.1 (Ne.symm hother)).2
    · exact ⟨fun hfits => hdead (hfits.1 (Ne.symm hother)).1, fun _ => rfl, fun h => absurd h.1 hdead⟩

/-- A transfer that succeeds fits; one that fails has left the page tables as they were, unless it
tears the range. -/
theorem transferMemory_post (hkeeps : ∀ (t : Core) src a b, Keeps (fun m => t.processes = s.processes ∧
      m.current = s.machine.current) (page src a b)) :
    Post (transferMemory srcVirt destPid 0 len page) (fun virt s' => s.Transferred s' destPid len srcVirt virt)
      (fun _ s' => ¬s.TransferFits srcVirt destPid len ∧ s'.processes = s.processes ∧
        (s.machine.SamePages s'.machine ↔ ¬s.TearsTransfer srcVirt destPid len)) s := by
  have hstable : Keeps _ (transferMemory srcVirt destPid 0 len page) :=
    (Core.stable_scheduling _ _).transferMemory trivial _ _ _ fun t src a b _ => hkeeps t src a b
  apply ((transferMemory_pages hsrc hlen hsatp hlive hpage 0).and (hstable s ⟨rfl, rfl⟩)).mono
  · exact fun virt s' h => ⟨h.1.1, h.2.1, h.2.2, h.1.2.1, h.1.2.2⟩
  · rintro _ s' ⟨⟨hfits, hkept, htorn⟩, hprocesses, -⟩
    refine ⟨hfits, hprocesses, fun hsame htears => htorn htears hsame.1, fun hnot => ?_⟩
    rw [Machine.SamePages, hkept hnot]
    exact ⟨rfl, rfl⟩

theorem transferMemory_err (destVirt : Nat) {e : Error} {s' : Core}
    (herr : transferMemory srcVirt destPid destVirt len page s = .err e s') :
    s'.machine.mem = s.machine.mem ↔ ¬s.TearsAt srcVirt destPid destVirt len := by
  have hpost := transferMemory_pages hsrc hlen hsatp hlive hpage destVirt
  rw [Post, herr] at hpost
  exact ⟨fun hsame htears => hpost.2.2 htears (by rw [hsame]), hpost.2.1⟩

end Whole

/-- The memory of the message passes the checks made before the transfer. -/
def Message.WholePages : Message → Prop
  | .scalar _ | .blockingScalar _ => True
  | .move msg =>
    msg.buf.len % pageSize = 0 ∧ msg.buf.asPtr % pageSize = 0 ∧
      saturatingAdd 0 msg.buf.len ≤ userAreaEnd
  | .mutableBorrow msg | .borrow msg =>
    msg.buf.len % pageSize = 0 ∧ msg.buf.asPtr % pageSize = 0

/-- The transfer of the memory of a message is stopped after it has changed a page. -/
def Core.TearsMessage (serverPid : PID) (message : Message) : Prop :=
  message.WholePages ∧ ∃ buf, message.memory = some buf ∧
    s.TearsTransfer buf.asPtr serverPid buf.len

def Core.MessageFits (serverPid : PID) (message : Message) : Prop :=
  message.WholePages ∧ ∀ buf, message.memory = some buf →
    s.TransferFits buf.asPtr serverPid buf.len

theorem Core.MessageFits.not_tears {s : Core} {serverPid : PID} {message : Message}
    (h : s.MessageFits serverPid message) : ¬s.TearsMessage serverPid message := by
  rintro ⟨-, buf, hbuf, htears⟩
  exact (h.2 buf hbuf).not_tears htears

/-- The program hands over the memory of a message, or fails; then the page tables are as they were,
unless it tears the memory. -/
abbrev Core.HandsOver (serverPid : PID) (message : Message) (buf : MemoryRange)
    (prog : CM Nat) : Prop :=
  Post prog
    (fun virt s' => s.MessageFits serverPid message ∧
      s.Transferred s' serverPid buf.len buf.asPtr virt)
    (fun _ s' => ¬s.MessageFits serverPid message ∧ s'.processes = s.processes ∧
      (s.machine.SamePages s'.machine ↔ ¬s.TearsMessage serverPid message)) s

section Message

variable {s : Core} {serverPid : PID} {message : Message} {buf : MemoryRange}
  (hsatp : s.machine.satp = s.machine.current) (hlive : s.Live s.machine.current)
  (hbuf : message.memory = some buf) (hlen : buf.len < 2 ^ 32)

include hsatp hlive hbuf hlen

theorem handOver_transfer_post (hwhole : message.WholePages) {page : PID → Nat → Nat → MM Unit}
    (hpage : serverPid ≠ s.machine.current → GivesPage (page s.machine.current) s.machine.current)
    (hkeeps : ∀ (t : Core) src a b, Keeps (fun m => t.processes = s.processes ∧
      m.current = s.machine.current) (page src a b)) :
    s.HandsOver serverPid message buf (transferMemory buf.asPtr serverPid 0 buf.len page) := by
  have hsrc : buf.asPtr % pageSize = 0 := by
    cases message <;> simp_all [Message.WholePages, Message.memory]
  have hfits : s.MessageFits serverPid message ↔ s.TransferFits buf.asPtr serverPid buf.len := by
    simp [Core.MessageFits, hwhole, hbuf]
  have htears : s.TearsMessage serverPid message ↔
      s.TearsTransfer buf.asPtr serverPid buf.len := by simp [Core.TearsMessage, hwhole, hbuf]
  rw [Core.HandsOver, hfits, htears]
  exact (transferMemory_post hsrc hlen hsatp hlive hpage hkeeps).imp fun _ _ h => ⟨h.fits, h⟩

omit hsatp hlive hbuf hlen in
theorem handOver_check_post (e : Error) (hwhole : ¬message.WholePages) : s.HandsOver serverPid message buf (fail e) :=
  ⟨fun h => hwhole h.1, rfl, iff_of_true ⟨rfl, rfl⟩ fun h => hwhole h.1⟩

theorem send_post (hwhole : message.WholePages ↔ buf.len % pageSize = 0 ∧
      buf.asPtr % pageSize = 0 ∧ saturatingAdd 0 buf.len ≤ userAreaEnd) :
    s.HandsOver serverPid message buf (sendMemory buf.asPtr serverPid 0 buf.len) := by
  have hpos : buf.len ≠ 0 := buf.size.pos.ne'
  unfold sendMemory
  rw [Core.HandsOver, post_ite]
  refine ⟨fun hbad => handOver_check_post _ fun h => ?_, fun hgood => ?_⟩
  · obtain ⟨h1, h2, -⟩ := hwhole.mp h
    simp [h1, h2, hpos] at hbad
  · rw [post_ite]
    refine ⟨fun hlarge => handOver_check_post _ fun h => ?_, fun hsmall => ?_⟩
    · exact absurd (hwhole.mp h).2.2 (Nat.not_le.mpr hlarge)
    · push Not at hgood
      exact handOver_transfer_post hsatp hlive hbuf hlen
        (hwhole.mpr ⟨hgood.2.1, hgood.2.2.1, Nat.not_lt.mp hsmall⟩) givesPage_move
        fun t _ _ _ => ((Core.stable_scheduling _ _).machine t).movePage trivial trivial _ _ _ _

theorem lend_post (isMutable : Bool) (hwhole : message.WholePages ↔ buf.len % pageSize = 0 ∧ buf.asPtr % pageSize = 0) :
    s.HandsOver serverPid message buf (lendMemory buf.asPtr serverPid 0 buf.len isMutable) := by
  have hpos : buf.len ≠ 0 := buf.size.pos.ne'
  unfold lendMemory
  rw [Core.HandsOver, if_neg hpos, post_ite]
  refine ⟨fun hbad => handOver_check_post _ fun h => ?_, fun hgood => ?_⟩
  · obtain ⟨h1, h2⟩ := hwhole.mp h
    simp [h1, h2] at hbad
  · push Not at hgood
    exact handOver_transfer_post hsatp hlive hbuf hlen (hwhole.mpr ⟨hgood.1, hgood.2.1⟩)
      (fun hne => givesPage_lend hne isMutable) fun t _ _ _ => .bind
        (((Core.stable_scheduling _ _).machine t).lendPageInner trivial trivial _ _ _ _) fun _ => .pure _

theorem handOver_post : s.HandsOver serverPid message buf (message.handOver serverPid) := by
  cases message with
  | scalar msg | blockingScalar msg => simp [Message.memory] at hbuf
  | move msg =>
    obtain rfl : msg.buf = buf := by simpa [Message.memory] using hbuf
    exact send_post hsatp hlive hbuf hlen Iff.rfl
  | mutableBorrow msg =>
    obtain rfl : msg.buf = buf := by simpa [Message.memory] using hbuf
    exact lend_post hsatp hlive hbuf hlen true Iff.rfl
  | borrow msg =>
    obtain rfl : msg.buf = buf := by simpa [Message.memory] using hbuf
    exact lend_post hsatp hlive hbuf hlen false Iff.rfl

end Message

end BaochipXous.Kernel
