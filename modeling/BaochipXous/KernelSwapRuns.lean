import BaochipXous.KernelSwapPlaces

/-!
Runs of claims, moves, releases, evictions, retrievals and terminations in a kernel with swap. While
every claim and move by physical address puts the page at that address, stealing the page at the
address in the tracker takes this page and no other.
-/

namespace BaochipXous.Kernel.Swap

open Prog Tracker SwapMachine Labelled

namespace SwapMachine

variable {s s' : SwapMachine} {hole : Option Nat}

theorem Tracks.remark (h : s.Tracks hole) {virt : Nat} {e : PTE}
    (hroot : s.machine.rootValid virt = true) (hlent : e.s = false)
    (hvalid : e.valid = (s.machine.entry virt).valid) (hphys : e.phys = (s.machine.entry virt).phys) :
    (s.write virt e).Tracks hole := by
  refine ⟨h.aligned, h.bound, h.tables.write hroot hlent, h.swapper, ?_⟩
  intro i hi hne p hp hwired
  rw [write_tracker] at hi hp hwired ⊢
  have hmaps := h.recorded i hi hne p hp hwired
  by_cases heq : p = s.machine.satp ∧ vpn (s.tracker.allocations i).vaddr = vpn virt
  · have hentry : s.machine.entry virt = s.machine.mem.pt p (vpn (s.tracker.allocations i).vaddr) := by
      rw [heq.1, heq.2]
      rfl
    refine ⟨hmaps.aligned, hmaps.root, ?_, ?_⟩ <;> rw [write_pt, if_pos heq]
    · rw [hvalid, hentry]
      exact hmaps.valid
    · rw [hphys, hentry]
      exact hmaps.phys
  · exact hmaps.write e heq

theorem Tracks.wire (h : s.Tracks hole) {i : Nat} (hhole : ∀ j, hole = some j → j = i) :
    ({ s with tracker := s.tracker.setEntry i fun e => { e with wired := true } } : SwapMachine).Tracks none := by
  have hself : ((s.tracker.setEntry i fun e => { e with wired := true }).allocations i).wired =
      true := by simp [setEntry]
  have howner : ∀ j, (s.tracker.setEntry i fun e => { e with wired := true }).owner j = s.tracker.owner j := by
    intro j
    by_cases hj : j = i
    · subst hj
      simp [setEntry, owner]
    · simp [setEntry, owner, hj]
  have hother : ∀ j, j ≠ i → (s.tracker.setEntry i fun e => { e with wired := true }).allocations j =
      s.tracker.allocations j := by
    intro j hj
    simp [setEntry, hj]
  refine ⟨h.aligned, h.bound, { h.tables with }, ?_, ?_⟩
  · intro j hj
    rw [howner] at hj
    by_cases heq : j = i
    · exact heq ▸ hself
    · rw [hother j heq]
      exact h.swapper j hj
  · intro j hj _ p hp hwired
    by_cases heq : j = i
    · subst heq
      rw [hself] at hwired
      cases hwired
    · rw [howner] at hp
      rw [hother j heq] at hwired ⊢
      have hmaps := h.recorded j hj (fun h => heq (hhole j h)) p hp hwired
      exact { hmaps with }

theorem Tracks.processes (h : s.Tracks hole) (processes : List PID) :
    ({ s with tracker := { s.tracker with processes := processes } } : SwapMachine).Tracks hole :=
  ⟨h.aligned, h.bound, { h.tables with }, h.swapper, fun i hi hne p hp hwired =>
    let hmaps := h.recorded i hi hne p hp hwired
    { hmaps with }⟩

end SwapMachine

section Evict

variable {s : SwapMachine} {hole : Option Nat}

theorem phys_of_ppn {e : PTE} {phys : Nat} (halign : phys % pageSize = 0) (hbound : phys < 2 ^ 32)
    (hppn : e.ppn = phys / pageSize % 2 ^ 20) : e.phys = phys := by
  rw [PTE.phys, hppn]
  simp only [pageSize] at *
  omega

/-- A stolen page: its process does not map it any more, other mappings are as before, and the
swapper has no other page at the address it is told. -/
structure Stolen (s : SwapMachine) (target : PID) (vaddr payload : Nat) (s' : SwapMachine) :
    Prop where
  tracks : s'.Tracks (s.pageOf (s.machine.mem.pt target (vpn vaddr)))
  satp : s'.machine.satp = swapperPid
  ramStart : s'.tracker.ramStart = s.tracker.ramStart
  ramSize : s'.tracker.ramSize = s.tracker.ramSize
  roots : ∀ q r, s.machine.mem.l1 q r = true → s'.machine.mem.l1 q r = true
  valid : (s.machine.mem.pt target (vpn vaddr)).valid = true
  gone : target ≠ swapperPid → (s'.machine.mem.pt target (vpn vaddr)).valid = false
  others : ∀ q v, s.machine.mem.l1 q (v / 1024) = true → (s.machine.mem.pt q v).valid = true →
    ¬(q = target ∧ v = vpn vaddr) → s'.machine.mem.pt q v = s.machine.mem.pt q v
  payload : s'.machine.rootValid payload = true → (s'.machine.entry payload).valid = true →
    (s'.machine.entry payload).ppn =
      (s.machine.mem.pt target (vpn vaddr)).phys / pageSize % 2 ^ 20

/-- A page that the process maps may be refused to the swapper: the process has no right to it, or it
is marked as swapped. -/
def Withheld (s : SwapMachine) (p : PID) (v : Nat) : Prop :=
  ∀ i, s.Maps p v i →
    (s.machine.mem.pt p (vpn v)).user = false ∨ (s.machine.mem.pt p (vpn v)).p = true

theorem refuseEviction_post {α : Type} {why : Prop} (h : s.Tracks none) (e : Error) (hwhy : why)
    {Q : α → SwapMachine → Prop} : Post (refuseEviction e) Q (fun _ s' => s'.Tracks none ∧ why) s :=
  ⟨(s.frame_activate swapperPid).tracks h, hwhy⟩

theorem evictPageInner_post (h : s.Tracks none) (targetPid : PID) (vaddr : Nat) :
    Post (evictPageInner targetPid vaddr) (Stolen s targetPid vaddr)
      (fun _ s' => s'.Tracks none ∧ Withheld s targetPid vaddr) s := by
  unfold evictPageInner
  rw [post_bind, activateMapping, post_inTables, post_modify, post_bind, post_attempt]
  have h₀ : (s.activate targetPid).Tracks none := (s.frame_activate targetPid).tracks h
  apply (pagetableEntry_post (s.activate targetPid) vaddr).mono
  · rintro e s₀ ⟨rfl, hroot, rfl⟩
    dsimp only
    apply (touch_post h₀ _).never.bind
    rintro _ s1 ⟨h1, hmachine, hstart, hsize⟩
    have hlent : ((s.activate targetPid).machine.entry vaddr).s = false := h.tables.lent _ _
    rw [post_ite]
    refine ⟨fun habsent => refuseEviction_post h1 _ fun _ hmaps => Or.inr ?_, fun hpresent => ?_⟩
    · simpa [Machine.entry, activate, hmaps.valid] using habsent
    rw [post_ite]
    refine ⟨fun hforbidden => refuseEviction_post h1 _ fun _ _ => Or.inl ?_, fun _ => ?_⟩
    · simpa [Machine.entry, activate] using hforbidden
    rw [post_ite]
    refine ⟨fun hshared => absurd (hlent.symm.trans hshared) Bool.false_ne_true, fun _ => ?_⟩
    rw [post_bind, post_inTables, post_modify]
    have hvalid : ((s.activate targetPid).machine.entry vaddr).valid = true := by
      simp only [Bool.or_eq_true, Bool.not_eq_true', not_or, Bool.not_eq_false] at hpresent
      exact hpresent.1
    -- the entry of the process is taken, which leaves out its page
    have hroot1 : s1.machine.rootValid vaddr = true := by rwa [hmachine]
    have hwritten := h1.write (e := { (s.activate targetPid).machine.entry vaddr with
      ppn := 0, valid := false, p := true }) hroot1 hlent
    rw [pageOf, isMainMemory, offset, hstart, hsize, hmachine] at hwritten
    apply (mapPageToSwapper_post hwritten.tables _).never.imp
    intro payload s2 hlodged
    have hpt1 := write_pt s1 vaddr
      { (s.activate targetPid).machine.entry vaddr with ppn := 0, valid := false, p := true }
    have hsatp1 : s1.machine.satp = targetPid := by rw [hmachine]; rfl
    have hmem1 : s1.machine.mem = s.machine.mem := by rw [hmachine]; rfl
    rw [hsatp1] at hpt1
    refine ⟨hlodged.frame.tracks hwritten, hlodged.satp, hlodged.frame.grows.ramStart.trans hstart,
      hlodged.frame.grows.ramSize.trans hsize, ?_, hvalid, ?_, ?_, hlodged.payload⟩
    · intro q r hr
      apply hlodged.frame.roots
      rwa [write_l1, hmem1]
    · intro hne
      rw [(hlodged.others targetPid hne).2]
      exact congrArg PTE.valid ((hpt1 targetPid (vpn vaddr)).trans (if_pos ⟨rfl, rfl⟩))
    · intro q v hrooted hqv hother
      have hsame := (hpt1 q v).trans (if_neg hother)
      rw [hmem1] at hsame
      refine (hlodged.frame.keeps q v ?_ ?_).trans hsame
      · rwa [write_l1, hmem1]
      · rwa [hsame]
  · rintro e s₀ ⟨rfl, hunrooted⟩
    refine refuseEviction_post h₀ _ fun _ hmaps => ?_
    have hword := hunrooted (Nat.mod_mod_of_dvd vaddr (by decide : 4 ∣ pageSize) ▸
      congrArg (· % 4) hmaps.aligned)
    cases hword.symm.trans hmaps.root

theorem stealPage_post (h : s.Tracks none) (targetPid : PID) (vaddr : Nat) :
    Post (stealPage targetPid vaddr) (Stolen s targetPid vaddr)
      (fun _ s' => s'.Tracks none ∧ Withheld s targetPid vaddr) s := by
  unfold stealPage
  rw [post_bind, post_attempt]
  exact evictPageInner_post h targetPid vaddr

theorem evictPage_post (h : s.Tracks none) (targetPid : PID) (vaddr : Nat) :
    Leaves (evictPage targetPid vaddr) (·.Tracks none) s := by
  unfold Leaves evictPage
  rw [post_bind]
  apply (stealPage_post h targetPid vaddr).mono _ fun _ _ h => h.1
  intro payload s1 hstolen
  rw [post_unwrap]
  unfold releaseMemory
  rw [post_bind, post_gets]
  cases hphys : s1.machine.virtToPhys payload with
  | error e => trivial
  | ok paddr =>
    obtain ⟨hroot, hvalid, -, rfl⟩ := Machine.virtToPhys_ok hphys
    dsimp only
    rw [post_bind, post_get, post_ite]
    refine ⟨fun _ => ?_, fun _ => trivial⟩
    rw [post_bind, post_unwrap]
    apply (unmapPageInner_post s1 payload).mono _ fun _ _ _ => trivial
    rintro _ s2 ⟨-, rfl⟩
    have htracks := hstolen.tracks.write_swapper hroot (e := .zero) rfl hstolen.satp
    rw [post_unwrap, post_inTracker]
    apply (claimReleaseMove_effect s1.tracker (s1.machine.entry payload).phys targetPid
      .release).mono _ fun _ _ _ => trivial
    rintro _ t' ⟨heffect, howner⟩
    -- the page released is the one that was stolen, if that one is in main memory
    have hpage : ∀ j, s.pageOf (s.machine.mem.pt targetPid (vpn vaddr)) = some j →
        s1.tracker.isMainMemory (s1.machine.entry payload).phys = true ∧
          j = s1.tracker.offset (s1.machine.entry payload).phys := by
      intro j hj
      have hppn := hstolen.payload hroot hvalid
      unfold pageOf at hj
      split at hj
      next hmain =>
        have hmain := (Bool.and_eq_true_iff.mp hmain).2
        have hsame : (s1.machine.entry payload).phys = (s.machine.mem.pt targetPid (vpn vaddr)).phys := by
          rw [isMainMemory, decide_eq_true_eq] at hmain
          exact phys_of_ppn (PTE.phys_aligned _) (hmain.2.trans_le h.bound) hppn
        rw [hsame, isMainMemory, offset, hstolen.ramStart, hstolen.ramSize]
        exact ⟨hmain, (Option.some.inj hj).symm⟩
      next => cases hj
    by_cases hmain : s1.tracker.isMainMemory (s1.machine.entry payload).phys
    · rw [actionOp_release (PTE.phys_aligned _) hmain (howner hmain)] at heffect
      exact htracks.free heffect fun j hj => (hpage j hj).2
    · have hnone : s.pageOf (s.machine.mem.pt targetPid (vpn vaddr)) = none := by
        by_contra hsome
        obtain ⟨j, hj⟩ := Option.ne_none_iff_exists'.mp hsome
        exact hmain (hpage j hj).1
      have hmiss : actionOp s1.tracker (s1.machine.entry payload).phys targetPid .release = none := by
        unfold actionOp
        rw [if_pos (Or.inr (Or.inl (by simpa using hmain)))]
      rw [hmiss] at heffect
      rw [hnone] at htracks
      exact htracks.agrees heffect

end Evict

variable (s : SwapMachine)

/-- A page that is stolen, and no other: the swapper gets this page if it gets one. -/
structure StealsExactly (p : PID) (v i payload : Nat) (s' : SwapMachine) :
    Prop where
  gone : ¬s'.Maps p v i
  kept : ∀ q w j, s.Maps q w j → ¬(q = p ∧ vpn w = vpn v) → s'.Maps q w j
  payload : s'.machine.rootValid payload = true → (s'.machine.entry payload).valid = true →
    (s'.machine.entry payload).phys = s.tracker.address i

theorem stealPage_exact {s : SwapMachine} (h : s.Tracks none) {p : PID} {i : Nat}
    (hi : i < s.tracker.pageCount) (hp : s.tracker.owner i = some p)
    (hwired : (s.tracker.allocations i).wired = false) :
    Post (stealPage p (s.tracker.allocations i).vaddr) (StealsExactly s p (s.tracker.allocations i).vaddr i)
      (fun _ _ => Withheld s p (s.tracker.allocations i).vaddr) s := by
  have hmaps := h.recorded i hi nofun p hp hwired
  have hne : p ≠ swapperPid := by
    rintro rfl
    rw [h.swapper i hp] at hwired
    nomatch hwired
  apply (stealPage_post h p _).mono _ fun _ _ h => h.2
  intro payload s' hstolen
  refine ⟨fun hmaps' => ?_, ?_, ?_⟩
  · have hvalid := hmaps'.valid
    rw [hstolen.gone hne] at hvalid
    nomatch hvalid
  · intro q w j hqw hother
    have hsame := hstolen.others q (vpn w) hqw.root hqw.valid hother
    refine ⟨hqw.aligned, hstolen.roots q _ hqw.root, ?_, ?_⟩ <;> rw [hsame]
    · exact hqw.valid
    · rw [hqw.phys, address, address, hstolen.ramStart]
  · intro hroot hvalid
    have hmain := isMainMemory_address hi
    rw [isMainMemory, decide_eq_true_eq] at hmain
    have haligned : s.tracker.address i % pageSize = 0 := hmaps.phys ▸ PTE.phys_aligned _
    apply phys_of_ppn haligned (hmain.2.trans_le h.bound)
    rw [hstolen.payload hroot hvalid, hmaps.phys]

section

variable {s : SwapMachine} {hole : Option Nat}

/-- What the retrieval of a page leaves: nothing changes outside the swapper. -/
structure Retrieved (s s' : SwapMachine) : Prop where
  satp : s'.machine.satp = s.machine.current
  grows : s.tracker.Grows s'.tracker
  roots : ∀ q r, s.machine.mem.l1 q r = true → s'.machine.mem.l1 q r = true
  others : ∀ q, q ≠ swapperPid → s'.machine.mem.pt q = s.machine.mem.pt q

theorem retrievePage_post (h : s.Tracks hole) (newPage : Nat) :
    Post (retrievePage newPage) (fun _ s' => s'.Tracks hole ∧ Retrieved s s') (fun _ _ => False) s := by
  unfold retrievePage
  rw [post_bind, post_gets]
  apply (mapPageToSwapper_post h.tables newPage).bind
  intro payload s1 hlodged
  rw [post_bind, post_unwrap]
  apply (unmapPageInner_post s1 payload).mono _ fun _ _ _ => trivial
  rintro _ s2 ⟨hroot, rfl⟩
  rw [activateMapping, post_inTables, post_modify]
  have htracks := (hlodged.frame.tracks h).write_swapper hroot (e := .zero) rfl hlodged.satp
  refine ⟨((s1.write payload .zero).frame_activate _).tracks htracks, rfl, hlodged.frame.grows, hlodged.frame.roots, ?_⟩
  intro q hq
  rw [← (hlodged.others q hq).2]
  exact Function.update_of_ne (hlodged.satp ▸ hq) ..

theorem SwapMachine.Tracks.fill {i : Nat} {e : PTE} (h : s.Tracks (some i)) (virt : Nat)
    (hroot : s.machine.rootValid virt = true) (hlent : e.s = false) (haligned : virt % pageSize = 0)
    (hinvalid : s.machine.satp ≠ swapperPid → (s.machine.entry virt).valid = false)
    (howner : s.tracker.owner i = some s.machine.satp)
    (hvaddr : (s.tracker.allocations i).vaddr = virt) (hvalid : e.valid = true)
    (hppn : e.ppn = s.tracker.address i / pageSize % 2 ^ 20) : (s.write virt e).Tracks none := by
  by_cases hswapper : s.machine.satp = swapperPid
  · apply (h.write_swapper hroot hlent hswapper).close
    intro _ p hp hwired
    rw [write_tracker, howner] at hp
    rw [write_tracker, h.swapper i (hswapper ▸ howner)] at hwired
    nomatch hwired
  · apply ((frame_write hroot hlent (hinvalid hswapper)).tracks h).close
    intro hi p hp _
    rw [write_tracker] at hi hp ⊢
    obtain rfl := Option.some.inj (howner.symm.trans hp)
    have hmain := isMainMemory_address hi
    rw [isMainMemory, decide_eq_true_eq] at hmain
    have haddress : s.tracker.address i % pageSize = 0 := by
      have := h.aligned
      simp only [address, pageSize] at *
      omega
    rw [hvaddr]
    refine ⟨haligned, hroot, ?_, ?_⟩ <;> rw [write_pt, if_pos ⟨rfl, rfl⟩]
    · exact hvalid
    · exact phys_of_ppn haddress (hmain.2.trans_le h.bound) hppn

theorem ensurePageExistsInner_post (h : s.Tracks none) (hactive : s.machine.current = s.machine.satp) (address : Nat)
    (hentry : ((s.machine.entry (address - address % pageSize)).valid &&
      (s.machine.entry (address - address % pageSize)).p) = false) :
    Leaves (ensurePageExistsInner address) (·.Tracks none) s := by
  unfold Leaves ensurePageExistsInner
  rw [post_bind, post_gets, post_ite]
  refine ⟨fun _ => h, fun _ => ?_⟩
  dsimp only
  rw [post_bind, post_gets, post_ite]
  refine ⟨fun _ => h, fun hroot => ?_⟩
  rw [post_bind, post_gets, post_ite]
  refine ⟨fun _ => h, fun habsent => ?_⟩
  rw [post_ite]
  refine ⟨fun _ => h, fun hreserved => ?_⟩
  rw [post_bind, post_gets, post_bind, post_inTracker]
  generalize hvirt : address - address % pageSize = virt at *
  have haligned : virt % pageSize = 0 := by
    rw [← hvirt]
    simp only [pageSize]
    omega
  have hroot : s.machine.rootValid virt = true := by simpa using hroot
  have hinvalid : (s.machine.entry virt).valid = false := by
    revert hentry habsent
    cases (s.machine.entry virt).valid <;> cases (s.machine.entry virt).p <;> simp
  apply (allocPageOomable_effect s.tracker s.machine.current (some virt)).never.imp
  rintro _ t' ⟨i, rfl, -, heffect⟩
  have h1 := h.update heffect (by simp)
  obtain ⟨hstart, -, hpid, hvaddr, -⟩ := SwapMachine.entry_of_effect heffect
  have hvaddr : (t'.allocations i).vaddr = virt := by
    rw [hvaddr]
    simp [SwapAlloc.assign, haligned]
  have howner : t'.owner i = some s.machine.current := hpid
  have haddress : t'.address i = s.tracker.address i := by
    rw [Tracker.address, Tracker.address, hstart]
  have hlent : (s.machine.entry virt).s = false := h.tables.lent _ _
  rw [post_ite]
  refine ⟨fun _ => ?_, fun _ => ?_⟩
  · apply (retrievePage_post h1 _).never.bind
    rintro _ s2 ⟨h2, hretrieved⟩
    rw [post_inTables, post_modify]
    have howned : t'.owner i ≠ none := by
      rw [howner]
      simp
    obtain ⟨hpid2, hvaddr2, -⟩ := hretrieved.grows.kept howned
    have hsatp : s2.machine.satp = s.machine.satp := hretrieved.satp.trans hactive
    refine h2.fill virt ?_ hlent haligned ?_ ?_ (hvaddr2.trans hvaddr) rfl ?_
    · rw [Machine.rootValid, hsatp]
      exact hretrieved.roots _ _ hroot
    · intro hne
      rw [hsatp] at hne
      rwa [Machine.entry, hsatp, hretrieved.others _ hne]
    · rwa [Tracker.owner, hpid2, hretrieved.satp]
    · rw [hretrieved.grows.address, haddress]
  · rw [post_inTables, post_modify]
    refine h1.fill virt hroot hlent haligned (fun _ => hinvalid) ?_ hvaddr rfl ?_
    · rwa [← hactive]
    · exact congrArg (· / pageSize % 2 ^ 20) haddress.symm

theorem handPageToUser_post (h : s.Tracks hole) (virt : Nat) :
    Post (unwrap (inTables (handPageToUser virt)))
      (fun _ s' => s'.Tracks hole ∧ s'.tracker = s.tracker) (fun _ _ => False) s := by
  rw [post_unwrap, post_inTables]
  unfold handPageToUser
  rw [post_bind, post_gets, post_bind, post_gets, post_ite]
  refine ⟨fun _ => trivial, fun hroot => ?_⟩
  rw [post_ite]
  refine ⟨fun _ => trivial, fun _ => ?_⟩
  rw [post_modify]
  refine ⟨h.remark (by simpa using hroot) ?_ rfl rfl, rfl⟩
  exact h.tables.lent _ _

theorem reserveAddress_post (h : s.Tracks none) (addr : Nat) (flags : MemoryFlags) :
    Leaves (reserveAddress addr flags) (·.Tracks none) s := by
  have hwrite : ∀ s1 : SwapMachine, s1.Tracks none → s1.machine.rootValid addr = true → Leaves (do
        let e ← gets (Machine.entry ·.machine addr)
        if e.valid then fail .shareViolation
        else inTables (modify (Machine.setEntry · addr (translateFlags flags))))
      (·.Tracks none) s1 := by
    intro s1 h1 hroot
    rw [Leaves, post_bind, post_gets, post_ite]
    refine ⟨fun _ => h1, fun hvalid => ?_⟩
    rw [post_inTables, post_modify]
    exact (frame_write hroot rfl (by simpa using hvalid)).tracks h1
  unfold Leaves reserveAddress
  rw [post_bind, post_gets, post_bind, post_when]
  refine ⟨fun hunrooted => ?_, fun hroot => hwrite s h (by simpa using hroot)⟩
  have hunrooted : s.machine.rootValid addr = false := by simpa using hunrooted
  rw [post_bind, post_gets, post_bind]
  refine (allocTable_post _ fun l0ptPhys t1 hgrows => ?_).never
  rw [post_bind, post_inTables, post_modify, post_bind]
  have hframe1 := (frame_tracker hgrows).trans (frame_setRoot { s with tracker := t1 } addr)
  apply (mapPageWith_post 3 s.machine.satp l0ptPhys (window addr) _ false _).mono
  · rintro _ s2 ⟨hmapped, -⟩
    rw [post_inTables, post_modify]
    have hsatp : s2.machine.satp = s.machine.satp := hmapped.satp
    refine hwrite _ (((hframe1.trans hmapped.frame).clearTable hsatp hunrooted).tracks h) ?_
    apply hmapped.frame.roots
    show (s.machine.setRoot addr).mem.l1 s2.machine.satp (vpn1 addr) = true
    rw [hsatp, setRoot_l1, if_pos ⟨rfl, rfl⟩]
  · intro _ s2 hinside
    exact (hframe1.trans hinside.frame).tracks h

theorem claim_effect {t t' : Tracker} {phys : Nat} {pid : PID} (heffect : Effect t (actionOp t phys pid .claim) t') :
    t.Agrees t' ∨ (t.tracks phys = true ∧ t.ownerOf phys = none ∧
      Effect t (some (.update (t.offset phys) (some pid) (some phys))) t') := by
  unfold actionOp at heffect
  split at heffect
  · exact Or.inl heffect
  next hmiss =>
    dsimp only at heffect
    split at heffect
    next hfree =>
      have htracks : t.tracks phys = true := by simp_all [tracks]
      exact Or.inr ⟨htracks, Option.isNone_iff_eq_none.mp hfree, heffect⟩
    next => exact Or.inl heffect

/-- The page left out, assigned to a process by its physical address, is where the record says if the
process maps it there. -/
theorem SwapMachine.Tracks.placed {i phys : Nat} {p : PID} {e : SwapAlloc} (h : s.Tracks (some i))
    (flags : MemoryFlags) (user : Bool)
    (hpid : (s.tracker.allocations i).pid = (e.assign (some p) (some phys)).pid)
    (hvaddr : (s.tracker.allocations i).vaddr = (e.assign (some p) (some phys)).vaddr)
    (haligned : phys % pageSize = 0) (hphys : phys = s.tracker.address i)
    (hroot : s.machine.mem.l1 p (vpn1 phys) = true)
    (hentry : s.machine.mem.pt p (vpn phys) = mappedEntry phys flags user) : s.Tracks none := by
  apply h.close
  intro hi q hq _
  obtain rfl : p = q := Option.some.inj (hpid.symm.trans hq)
  have hvaddr : (s.tracker.allocations i).vaddr = phys := by
    rw [hvaddr]
    simp [SwapAlloc.assign, haligned]
  have hmain := isMainMemory_address hi
  rw [isMainMemory, decide_eq_true_eq, ← hphys] at hmain
  rw [hvaddr]
  refine ⟨haligned, hroot, ?_, ?_⟩ <;> rw [hentry]
  · rfl
  · rw [← hphys]
    exact mappedEntry_phys haligned (hmain.2.trans_le h.bound) flags user

/-- A claim by physical address is recorded right: it does nothing in the tracker, is for the
swapper, or puts the page at that address. -/
def claimRecords (s : SwapMachine) (pid : PID) (phys virt : Nat) : Prop :=
  s.tracker.tracks phys = false ∨ s.tracker.ownerOf phys ≠ none ∨ pid = swapperPid ∨
    (virt = phys ∧ canMap s.machine virt = true)

/-- Where no entry depends on a mapping it may be made and handed to the user. -/
theorem mapAndHand_post (h : s.Tracks none) (pid : PID) (phys virt : Nat) (flags : MemoryFlags) :
    Post (mapPageInner pid phys virt flags false)
      (fun _ s' => Leaves (unwrap (inTables (handPageToUser virt))) (·.Tracks none) s')
      (fun _ s' => s'.Tracks none) s := by
  apply (mapPageWith_post 3 pid phys virt flags false s).mono
  · rintro _ s2 ⟨hmapped, -⟩
    exact (handPageToUser_post (hmapped.frame.tracks h) virt).never.imp fun _ _ h => h.1
  · intro _ s2 hinside
    exact hinside.frame.tracks h

theorem mapPhysical_post (h : s.Tracks none) {pid : PID} (hactive : s.machine.satp = pid)
    {phys virt : Nat} (flags : MemoryFlags) (hrecords : claimRecords s pid phys virt) :
    Leaves (mapPhysical phys virt pid flags) (·.Tracks none) s := by
  unfold Leaves mapPhysical
  rw [post_bind, post_inTracker]
  apply (claimReleaseMove_effect s.tracker phys pid .claim).mono
  · rintro _ t' ⟨heffect, -⟩
    rw [post_bind]
    rcases claim_effect heffect with hagrees | ⟨htracks, hfree, heffect⟩
    · exact mapAndHand_post (h.agrees hagrees) ..
    · have h1 := h.update heffect (by simp)
      obtain ⟨hstart, hsize, hpid, hvaddr, -⟩ := entry_of_effect heffect
      rcases hrecords with hmiss | howned | rfl | ⟨rfl, hmap⟩
      · rw [htracks] at hmiss
        cases hmiss
      · exact absurd hfree howned
      · apply mapAndHand_post
        apply h1.close
        intro _ p _ hwired
        rw [h1.swapper _ hpid] at hwired
        cases hwired
      · have hmapping := mapPageWith_post 3 pid virt virt flags false { s with tracker := t' }
        refine hmapping.mono ?_ fun _ _ hrefused => absurd hmap (by simp [hrefused.refused])
        rintro _ s2 ⟨hmapped, -⟩
        have howned : t'.owner (s.tracker.offset virt) ≠ none := by
          rw [owner, hpid]
          exact Option.some_ne_none pid
        obtain ⟨hpid2, hvaddr2, -⟩ := hmapped.frame.grows.kept howned
        have hplaced : s2.Tracks none := by
          rw [tracks, Bool.and_eq_true, decide_eq_true_eq] at htracks
          have hsatp : s2.machine.satp = pid := hmapped.satp.trans hactive
          refine (hmapped.frame.tracks h1).placed flags false
            (hpid2.trans hpid) (hvaddr2.trans hvaddr) htracks.1 ?_ ?_ ?_
          · rw [hmapped.frame.grows.address, address, hstart]
            exact (address_offset h.aligned htracks.1 htracks.2).symm
          · rw [← hsatp]
            exact hmapped.root
          · rw [← hsatp]
            exact hmapped.entry
        exact (handPageToUser_post hplaced virt).never.imp fun _ _ h => h.1
  · rintro _ t' ⟨-, rfl, -⟩
    exact h

theorem mapDevice_post (h : s.Tracks none) (virt : Nat) (pid : PID) (flags : MemoryFlags) :
    Leaves (mapDevice virt pid flags) (·.Tracks none) s := by
  unfold Leaves mapDevice
  rw [post_bind, post_gets]
  split
  · exact h
  next i hi =>
    dsimp only
    rw [post_bind, post_inTracker]
    apply (claimReleaseMove_effect s.tracker (s.tracker.address i) pid .claim).mono
    · rintro _ t1 ⟨heffect, -⟩
      rw [post_bind, post_inTracker, setWired, post_modify, post_bind]
      have h1 : ({ s with tracker := t1.setEntry i fun e => { e with wired := true } } : SwapMachine).Tracks none := by
        rcases claim_effect heffect with hagrees | ⟨-, -, heffect⟩
        · exact (h.agrees hagrees).wire nofun
        · rw [offset_address] at heffect
          exact (h.update heffect nofun).wire fun j hj => (Option.some.inj hj).symm
      exact mapAndHand_post h1 ..
    · rintro _ t1 ⟨-, rfl, -⟩
      exact h

/-- The machine between the two halves of a move: the source does not map the page any more, and the
destination is active. -/
def inTransit (m : Machine) (srcAddr : Nat) (dest : PID) : Machine :=
  { m.setEntry srcAddr .zero with satp := dest }

/-- A move is recorded right: the tracker does not follow it, refuses it or has the page wired; or
the page gets to its physical address, or to the swapper, and does not stay with a process that does
not map it. -/
def moveRecords (s : SwapMachine) (src : PID) (srcAddr : Nat) (dest : PID) (destAddr : Nat) : Prop :=
  ∀ phys, s.machine.virtToPhys srcAddr = .ok phys → s.tracker.isMainMemory phys = true →
    s.tracker.foreign phys dest (.move src) = false →
    (s.tracker.allocations (s.tracker.offset phys)).wired = false →
    (dest = swapperPid ∨ destAddr = phys) ∧
      (s.tracker.ownerOf phys = some src → canMap (inTransit s.machine srcAddr dest) destAddr = true)

/-- The page of an entry has left its process, and the destination has mapped it or has failed to.
-/
structure Underway (s : SwapMachine) (src : PID) (srcAddr : Nat) (dest : PID) (s' : SwapMachine) :
    Prop where
  opened : s'.Tracks (s.pageOf (s.machine.entry srcAddr))
  closed : (∀ k, s.pageOf (s.machine.entry srcAddr) = some k → s.tracker.owner k = some src →
    (s.tracker.allocations k).wired = true) → s'.Tracks none
  grows : s.tracker.Grows s'.tracker

theorem movePageInner_post (h : s.Tracks none) {src : PID} (hactive : s.machine.satp = src)
    (srcAddr : Nat) (dest : PID) (destAddr : Nat) :
    Post (movePageInner src srcAddr dest dest destAddr)
      (fun _ s' => Underway s src srcAddr dest s' ∧ s'.machine.mem.l1 dest (vpn1 destAddr) = true ∧
        s'.machine.mem.pt dest (vpn destAddr) =
          mappedEntry (s.machine.entry srcAddr).phys (untranslateFlags (s.machine.entry srcAddr)) (dest.get ≠ 1))
      (fun _ s' => s' = s ∨ Underway s src srcAddr dest s' ∧
        canMap (inTransit s.machine srcAddr dest) destAddr = false) s := by
  unfold movePageInner
  rw [post_bind]
  apply (pagetableEntry_post s srcAddr).mono _ fun _ _ h => Or.inl h.1
  rintro e s₀ ⟨rfl, hroot, rfl⟩
  rw [post_ite]
  refine ⟨fun _ => Or.inl rfl, fun _ => ?_⟩
  rw [post_bind, post_inTables, post_modify, activateMapping, post_bind, post_inTables, post_modify,
    post_bind, post_attempt]
  have hwritten := h.write (e := .zero) hroot rfl
  have hframe1 := (s₀.write srcAddr .zero).frame_activate dest
  -- whatever the mapping does, it takes no page from a process
  have hunderway : ∀ s2, (s₀.write srcAddr .zero).Frame s2 → Underway s₀ src srcAddr dest (s2.activate src) := by
    intro s2 hframe
    have hframe' := hframe.trans (s2.frame_activate src)
    refine ⟨hframe'.tracks hwritten, fun hpage => ?_, hframe.grows⟩
    exact hframe'.tracks (h.write_unowned hroot rfl (by rwa [hactive]))
  apply (mapPageWith_post 3 dest (s₀.machine.entry srcAddr).phys destAddr
    (untranslateFlags (s₀.machine.entry srcAddr)) (dest.get ≠ 1)
    ((s₀.write srcAddr .zero).activate dest)).mono
  · rintro _ s2 ⟨hmapped, -⟩
    rw [post_bind, post_inTables, activateMapping, post_modify, post_ofExcept]
    have hsatp : s2.machine.satp = dest := hmapped.satp
    refine ⟨fun _ _ => ⟨hunderway s2 (hframe1.trans hmapped.frame), ?_, ?_⟩, by simp⟩
    · rw [← hsatp]
      exact hmapped.root
    · have hentry := hmapped.entry
      rwa [Machine.entry, hsatp] at hentry
  · intro _ s2 hrefused
    rw [post_bind, post_inTables, activateMapping, post_modify, post_ofExcept]
    exact ⟨by simp, fun _ _ =>
      Or.inr ⟨hunderway s2 (hframe1.trans hrefused.frame), hrefused.refused⟩⟩

theorem movePage_post (h : s.Tracks none) {src : PID} (hactive : s.machine.satp = src)
    {srcAddr : Nat} {dest : PID} {destAddr : Nat}
    (hrecords : moveRecords s src srcAddr dest destAddr) :
    Leaves (movePage src srcAddr dest destAddr) (·.Tracks none) s := by
  unfold Leaves movePage
  rw [post_bind, post_gets]
  cases hphys : s.machine.virtToPhys srcAddr with
  | error e => exact h
  | ok phys =>
    obtain ⟨hroot, hvalid, -, hentry⟩ := Machine.virtToPhys_ok hphys
    replace hentry := hentry.symm
    have haligned : phys % pageSize = 0 := hentry ▸ PTE.phys_aligned _
    -- the page of the entry, if it is in main memory
    have hpage : ∀ k, s.pageOf (s.machine.entry srcAddr) = some k →
        s.tracker.isMainMemory phys = true ∧ k = s.tracker.offset phys := by
      intro k hk
      rw [pageOf, hvalid, hentry, Bool.true_and] at hk
      split at hk
      next hmain => exact ⟨hmain, (Option.some.inj hk).symm⟩
      next => cases hk
    have hmoved : s.tracker.ownerOf phys = some src → s.tracker.foreign phys dest (.move src) = false := by
      intro hown
      simp [foreign, hown]
    dsimp only
    rw [post_bind]
    apply (movePageInner_post h hactive srcAddr dest destAddr).mono
    · rintro _ s1 ⟨hunderway, hroot1, hentry1⟩
      rw [post_inTracker]
      have hstart := hunderway.grows.ramStart
      have hsize := hunderway.grows.ramSize
      have hmain1 : s1.tracker.isMainMemory phys = s.tracker.isMainMemory phys := by
        rw [isMainMemory, isMainMemory, hstart, hsize]
      have hoffset : s1.tracker.offset phys = s.tracker.offset phys := by
        rw [offset, offset, hstart]
      apply (claimReleaseMove_effect s1.tracker phys dest (.move src)).mono
      · rintro _ t' ⟨heffect, haccepted⟩
        by_cases hmain : s.tracker.isMainMemory phys
        · have hforeign := haccepted (hmain1.trans hmain)
          have hop : actionOp s1.tracker phys dest (.move src) =
              some (.update (s1.tracker.offset phys) (some dest) (some phys)) := by
            unfold actionOp
            rw [if_neg (by simp [haligned, hmain1, hmain, hforeign])]
          rw [hop, hoffset] at heffect
          have h2 := hunderway.opened.update heffect fun j hj => (hpage j hj).2
          obtain ⟨hstart2, -, hpid, hvaddr, hwired⟩ := entry_of_effect heffect
          -- a wired page stays wired
          have hclose : (s1.tracker.allocations (s.tracker.offset phys)).wired = true ∨
              dest = swapperPid → ({ s1 with tracker := t' } : SwapMachine).Tracks none := by
            intro hwired1
            apply h2.close
            intro _ p _ hunwired
            rw [hwired] at hunwired
            rcases hwired1 with h | h <;> simp [SwapAlloc.assign, h] at hunwired
          rcases hunderway.grows.entries (s.tracker.offset phys) with
            ⟨hpid1, -, hwired1⟩ | ⟨-, hwired1⟩
          · cases hunwired : (s.tracker.allocations (s.tracker.offset phys)).wired with
            | true => exact hclose (Or.inl (hwired1.trans hunwired))
            | false =>
              have hforeign0 : s.tracker.foreign phys dest (.move src) = false := by
                rwa [foreign, ownerOf, hoffset, hpid1] at hforeign
              obtain ⟨hswapper | rfl, -⟩ := hrecords phys hphys hmain hforeign0 hunwired
              · exact hclose (Or.inr hswapper)
              · rw [hentry] at hentry1
                refine h2.placed _ _ hpid hvaddr haligned ?_ hroot1 hentry1
                rw [address, hstart2, hstart]
                exact (address_offset h.aligned haligned hmain).symm
          · exact hclose (Or.inl hwired1)
        · have hnone : actionOp s1.tracker phys dest (.move src) = none := by
            unfold actionOp
            rw [if_pos (Or.inr (Or.inl (by simpa [hmain1] using hmain)))]
          rw [hnone] at heffect
          exact (hunderway.closed fun k hk => absurd (hpage k hk).1 hmain).agrees heffect
      · rintro _ t' ⟨-, rfl, hrefused⟩
        apply hunderway.closed
        intro k hk hown
        obtain ⟨hmain, rfl⟩ := hpage k hk
        have howned : s.tracker.owner (s.tracker.offset phys) ≠ none := by
          rw [hown]
          simp
        have hown1 : s1.tracker.ownerOf phys = some src := by
          rwa [ownerOf, hoffset, (hunderway.grows.kept howned).1]
        have hforeign := hrefused haligned (hmain1.trans hmain) (by simp)
        simp [foreign, hown1] at hforeign
    · rintro _ s1 (rfl | ⟨hunderway, hcan⟩)
      · exact h
      · -- the page stays with its owner, who is not the source
        apply hunderway.closed
        intro k hk hown
        obtain ⟨hmain, rfl⟩ := hpage k hk
        by_contra hwired
        have hwired : (s.tracker.allocations (s.tracker.offset phys)).wired = false := by
          simpa using hwired
        obtain ⟨-, hcan'⟩ := hrecords phys hphys hmain (hmoved hown) hwired
        rw [hcan' hown] at hcan
        cases hcan

end

theorem terminateProcess_post {s : SwapMachine} (h : s.Tracks none) (pid : PID) :
    Leaves (terminateProcess pid) (·.Tracks none) s := by
  have hlent : ∀ addr, s.machine.pageIsLent addr = false := by
    intro addr
    simp [Machine.pageIsLent, Machine.entry, h.tables.lent]
  unfold Leaves terminateProcess
  rw [post_bind, post_get, post_bind, post_inTracker]
  have hrelease : Leaves (releaseAllMemoryForProcess pid s.machine.pageIsLent)
      (fun t' => ({ s with tracker := t' } : SwapMachine).Tracks none) s.tracker := by
    unfold Leaves releaseAllMemoryForProcess
    rw [post_bind, post_get, post_bind]
    have hstart : ({ s with tracker := s.tracker } : SwapMachine).Tracks none ∧
        s.tracker.pageCount = s.tracker.pageCount := ⟨h, rfl⟩
    refine (post_forEach (I := fun t => ({ s with tracker := t } : SwapMachine).Tracks none ∧
        t.pageCount = s.tracker.pageCount) _ ?_ hstart).imp ?_
    · -- no page is lent, so that each page of the process becomes free
      rintro i hi t ⟨ht, hcount⟩
      rw [post_bind, post_gets, post_ite]
      refine ⟨fun _ => ?_, fun _ => ⟨ht, hcount⟩⟩
      rw [hlent, if_neg (by simp)]
      have hindex : i < t.pageCount := hcount ▸ List.mem_range.mp hi
      apply ((EntryOp.update i none none).run_effect hindex).never.imp
      intro _ t' heffect
      obtain ⟨-, hsize, -⟩ := entry_of_effect heffect
      exact ⟨ht.free heffect (by simp), (congrArg (· / pageSize) hsize).trans hcount⟩
    · rintro _ t ⟨ht, -⟩
      apply post_forEach (I := fun t => ({ s with tracker := t } : SwapMachine).Tracks none) _ _ ht
      intro i _ t ht
      rw [post_bind, post_gets, post_ite]
      refine ⟨fun _ => ?_, fun _ => ht⟩
      split
      · trivial
      · rw [post_modify]
        exact ht.agrees ⟨rfl, rfl, rfl, rfl, rfl⟩
  apply hrelease.imp
  intro _ t' ht
  rw [post_inTracker, post_modify]
  exact ht.processes _

inductive SwapOp where
  | reserve (addr : Nat) (flags : MemoryFlags)
  | claim (phys virt : Nat) (flags : MemoryFlags)
  | device (virt : Nat) (flags : MemoryFlags)
  | fault (address : Nat)
  | move (srcAddr : Nat) (dest : PID) (destAddr : Nat)
  | release (virt : Nat)
  | evict (targetPid : PID) (vaddr : Nat)
  | terminate (pid : PID)

namespace SwapOp

def exec (actor : PID) : SwapOp → SM Unit
  | reserve addr flags => reserveAddress addr flags
  | claim phys virt flags => mapPhysical phys virt actor flags
  | device virt flags => mapDevice virt actor flags
  | fault address => ensurePageExistsInner address
  | move srcAddr dest destAddr => movePage actor srcAddr dest destAddr
  | release virt => do
    let _ ← unmapPage virt
    pure ()
  | evict targetPid vaddr => evictPage targetPid vaddr
  | terminate pid => terminateProcess pid

def enter (actor : PID) : SwapMachine :=
  { s with machine := { s.machine with satp := actor, current := actor } }

/-- An operation by a process that returns, with or without an error. -/
def Step (label : PID × SwapOp) (s' : SwapMachine) : Prop :=
  label.2.exec label.1 (enter s label.1) = .ok () s' ∨
    ∃ e, label.2.exec label.1 (enter s label.1) = .err e s'

/-- What an operation writes into the tracker is right: claims and moves put a page at its physical
address, and no page is fetched for one that is there. -/
def records (actor : PID) : SwapOp → Prop
  | claim phys virt _ => claimRecords s actor phys virt
  | move srcAddr dest destAddr => moveRecords s actor srcAddr dest destAddr
  | fault address =>
    ((s.machine.entry (address - address % pageSize)).valid &&
      (s.machine.entry (address - address % pageSize)).p) = false
  | _ => True

def RecordingStep (label : PID × SwapOp) (s' : SwapMachine) : Prop :=
  label.2.records (enter s label.1) label.1 ∧ Step s label s'

theorem enter_tracks {s : SwapMachine} (h : s.Tracks none) (actor : PID) : (enter s actor).Tracks none :=
  ⟨h.aligned, h.bound, { h.tables with }, h.swapper, fun i hi hne p hp hwired =>
    let hmaps := h.recorded i hi hne p hp hwired
    { hmaps with }⟩

theorem exec_post {s : SwapMachine} {actor : PID} {op : SwapOp} (h : s.Tracks none)
    (hcurrent : s.machine.current = actor) (hsatp : s.machine.satp = actor)
    (hrecords : op.records s actor) :
    Leaves (op.exec actor) (·.Tracks none) s := by
  have hactive : s.machine.current = s.machine.satp := hcurrent.trans hsatp.symm
  cases op with
  | reserve addr flags => exact reserveAddress_post h addr flags
  | claim phys virt flags => exact mapPhysical_post h hsatp flags hrecords
  | device virt flags => exact mapDevice_post h virt actor flags
  | fault address => exact ensurePageExistsInner_post h hactive address hrecords
  | move srcAddr dest destAddr => exact movePage_post h hsatp hrecords
  | release virt =>
    rw [exec]
    exact (unmapPage_post h hactive virt).bind fun _ _ h => h
  | evict targetPid vaddr => exact evictPage_post h targetPid vaddr
  | terminate pid => exact terminateProcess_post h pid

theorem step_tracks {s s' : SwapMachine} {label : PID × SwapOp} (h : s.Tracks none)
    (hstep : RecordingStep s label s') : s'.Tracks none := by
  obtain ⟨hrecords, hstep⟩ := hstep
  have hpost := exec_post (enter_tracks h label.1) rfl rfl hrecords
  rcases hstep with hok | ⟨e, herr⟩
  · exact hpost.ok hok
  · exact hpost.err herr

end SwapOp

open SwapOp in
/-- Over operations that record the right address, the entry of every owned page that is not wired
has the address at which the owner maps it. Stealing it there takes this page and no other; it is
refused only for a page that its process may not use. -/
theorem owned_pages_are_where_the_tracker_has_them (s₀ s : SwapMachine) (h₀ : s₀.Tracks none)
    (labels : List (PID × SwapOp)) (run : Run RecordingStep s₀ labels s) (i : Nat)
    (hi : i < s.tracker.pageCount) (p : PID) (hp : s.tracker.owner i = some p)
    (hwired : (s.tracker.allocations i).wired = false) :
    s.Maps p (s.tracker.allocations i).vaddr i ∧
      Post (stealPage p (s.tracker.allocations i).vaddr)
        (StealsExactly s p (s.tracker.allocations i).vaddr i)
        (fun _ _ => (s.machine.mem.pt p (vpn (s.tracker.allocations i).vaddr)).user = false ∨
          (s.machine.mem.pt p (vpn (s.tracker.allocations i).vaddr)).p = true) s := by
  have h : s.Tracks none := run.invariant h₀ fun _ _ _ h hstep => step_tracks h hstep
  have hmaps := h.recorded i hi nofun p hp hwired
  exact ⟨hmaps, (stealPage_exact h hi hp hwired).mono (fun _ _ h => h) fun _ _ h => h i hmaps⟩

/-- A memory of one page, with an entry at the first address of process 3. -/
def oneEntry (e : PTE) (tracker : Tracker) : SwapMachine where
  machine := {
    mem := {
      ramStart := 0
      ramSize := 0
      lastRamPage := 0
      allocations := fun _ => none
      extraRegions := []
      extraAllocations := fun _ => none
      peripheralRam := (0, 0)
      l1 := fun _ _ => true
      pt := fun q v => if q = pid3 ∧ v = 0x20000 then e else .zero }
    satp := pid1
    current := pid1
    arch := fun q => {
      hardwareThread := 3
      memDefaultBase := 0x60000000
      memDefaultLast := 0x60000000
      memMessageBase := 0x50000000
      memMessageLast := 0x50000000
      memHeapBase := 0x30000000
      memHeapSize := 0
      memHeapMax := 524288
      pid := q
      lastTidAllocated := 2
      threads := fun _ => .zero }
    lends := [] }
  tracker := tracker

theorem oneEntry_tables {e : PTE} (he : e.s = false) (tracker : Tracker) : (oneEntry e tracker).Tables := by
  have hlent : ∀ q v, ((oneEntry e tracker).machine.mem.pt q v).s = false := by
    intro q v
    simp only [oneEntry]
    split
    · exact he
    · rfl
  have hbase : ((oneEntry e tracker).machine.arch swapperPid).memMessageBase = 0x50000000 := rfl
  have hlast : ((oneEntry e tracker).machine.arch swapperPid).memMessageLast = 0x50000000 := rfl
  exact ⟨hlent, nofun, by rw [hbase]; decide, by rw [hbase, hlast]; decide⟩

/-- Process 3 maps the page, at the address that the tracker has. -/
def ownPage : SwapMachine :=
  oneEntry { ppn := 0x61000, valid := true, r := true, w := true, user := true } onePage

theorem ownPage_tracks : ownPage.Tracks none := by
  refine ⟨by decide, by decide, oneEntry_tables rfl _, ?_, ?_⟩
  · intro _ howner
    cases howner
  rintro i hi - p hp -
  obtain rfl := Option.some.inj hp
  have hi : i < 1 := hi
  obtain rfl : i = 0 := by omega
  exact ⟨by decide, rfl, rfl, by decide⟩

open SwapOp in
/-- A page that moves from process 3 to process 4 is recorded at its physical address. Process 4
maps nothing there. -/
theorem moved_page_is_recorded_elsewhere :
    ∃ s, ownPage.Tracks none ∧ Step ownPage (pid3, .move 0x20000000 pid4 0x40000000) s ∧
      s.tracker.owner 0 = some pid4 ∧ (s.tracker.allocations 0).wired = false ∧
      s.Maps pid4 0x40000000 0 ∧ (s.tracker.allocations 0).vaddr = 0x61000000 ∧
      ¬s.Maps pid4 0x61000000 0 ∧
      (stealPage pid4 0x61000000 s).errs (fun e _ => decide (e = .badAddress)) = true := by
  have hmove : (exec pid3 (.move 0x20000000 pid4 0x40000000) (enter ownPage pid3)).returns
      (fun _ s => decide (s.tracker.allocations 0 =
          { timestamp := 1, vaddr := 0x61000000, pid := some pid4 }) &&
        s.machine.mem.l1 pid4 0x100 && (s.machine.mem.pt pid4 0x40000).valid &&
        decide ((s.machine.mem.pt pid4 0x40000).phys = s.tracker.address 0) &&
        !(s.machine.mem.pt pid4 0x61000).valid &&
        (stealPage pid4 0x61000000 s).errs fun e _ => decide (e = .badAddress)) = true := by
    decide +kernel
  obtain ⟨_, s, hrun, htest⟩ := Outcome.exists_of_returns hmove
  simp only [Bool.and_eq_true, decide_eq_true_eq, Bool.not_eq_true'] at htest
  obtain ⟨⟨⟨⟨⟨hentry, hroot⟩, hvalid⟩, hphys⟩, hinvalid⟩, hsteal⟩ := htest
  refine ⟨s, ownPage_tracks, Or.inl hrun, by rw [owner, hentry], by rw [hentry],
    ⟨by decide, hroot, hvalid, hphys⟩, by rw [hentry], fun hmaps => ?_, hsteal⟩
  exact absurd hmaps.valid (by rw [show vpn 0x61000000 = 0x61000 from rfl, hinvalid]; simp)

def reservedPage : SwapMachine :=
  oneEntry { r := true, w := true } { onePage with allocations := fun _ => {} }

open SwapOp in
theorem touched_page_is_stolen :
    ∃ s s' payload, Run RecordingStep reservedPage [(pid3, .fault 0x20000000)] s ∧ s.Maps pid3 0x20000000 0 ∧
      stealPage pid3 0x20000000 s = .ok payload s' ∧ StealsExactly s pid3 0x20000000 0 payload s' := by
  have htracks : reservedPage.Tracks none := by
    refine ⟨by decide, by decide, oneEntry_tables rfl _, nofun, ?_⟩
    rintro i - - p hp
    nomatch hp
  obtain ⟨s, hrun, hcount, howner, hvaddr, hwired, hreturns⟩ :
      ∃ s, Run RecordingStep reservedPage [(pid3, .fault 0x20000000)] s ∧ 0 < s.tracker.pageCount ∧
        s.tracker.owner 0 = some pid3 ∧ (s.tracker.allocations 0).vaddr = 0x20000000 ∧
        (s.tracker.allocations 0).wired = false ∧
        (stealPage pid3 0x20000000 s).returns (fun _ _ => true) = true :=
    ⟨_, .cons ⟨rfl, Or.inl rfl⟩ .nil, by decide +kernel, by decide +kernel, by decide +kernel,
      by decide +kernel, by decide +kernel⟩
  have hsteals := owned_pages_are_where_the_tracker_has_them _ s htracks _ hrun 0 hcount pid3 howner hwired
  rw [hvaddr] at hsteals
  obtain ⟨payload, s', hsteal, -⟩ := Outcome.exists_of_returns hreturns
  exact ⟨s, s', payload, hrun, hsteals.1, hsteal, hsteals.2.ok hsteal⟩

end BaochipXous.Kernel.Swap
