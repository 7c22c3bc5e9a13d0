import BaochipXous.KernelPageRights

/-!
The permissions of a range of pages, checked as a whole before the first entry is written; the place
of one, searched from where the last search ended; and a page that is lent and returned, which sets
both entries anew whatever the lend has found there.
-/

namespace BaochipXous.Kernel

open Prog Machine

section Flags

variable {m : Machine} {flags : MemoryFlags} {virt : Nat}

def PTE.rights (e : PTE) : Bool × Bool × Bool := (e.r, e.w, e.x)

def MemoryFlags.rights (flags : MemoryFlags) : Bool × Bool × Bool := (flags.r, flags.w, flags.x)

/-- The page has the permissions that are asked for. -/
structure Machine.Permits (m : Machine) (flags : MemoryFlags) (virt : Nat) : Prop where
  root : m.rootValid virt = true
  unshared : (m.entry virt).s = false
  reserve : flags.reserve = false
  rights : flags.rights ≤ (m.entry virt).rights

theorem rights_le_iff {e : PTE} : flags.rights ≤ e.rights ↔
    (flags.r = true → e.r = true) ∧ (flags.w = true → e.w = true) ∧ (flags.x = true → e.x = true) := by
  simp [PTE.rights, MemoryFlags.rights, Bool.le_iff_imp]

theorem checkFlags_total (m : Machine) (virt : Nat) (flags : MemoryFlags) :
    Total (checkFlags virt flags) (fun _ m' => m' = m ∧ m.Permits flags virt) (fun _ m' => m' = m) m := by
  unfold checkFlags
  rw [total_bind, total_gets]
  cases hexisting : m.pageFlags virt with
  | none => rfl
  | some existing =>
    have hpage : m.rootValid virt = true ∧ (m.entry virt).s = false ∧
        existing = { r := (m.entry virt).r, w := (m.entry virt).w, x := (m.entry virt).x } := by
      grind [pageFlags]
    obtain ⟨hroot, hlent, rfl⟩ := hpage
    rw [total_bind, ofOption, total_pure, total_ite]
    refine ⟨fun _ => rfl, fun hadds => ⟨rfl, hroot, hlent, ?_, rights_le_iff.mpr ?_⟩⟩ <;> grind [MemoryFlags.adds]

/-- An update that has passed its check takes permissions away, and would pass the check again. It
fails only if no permission is to stay. -/
theorem updatePage_total (h : m.Permits flags virt) :
    Total (do checkFlags virt flags; updatePageFlags virt flags)
      (fun _ m' => (flags.r || flags.w || flags.x) = true ∧ (∀ q v, (m'.mem.pt q v).rights ≤ (m.mem.pt q v).rights) ∧
        ∀ a, m.Permits flags a → m'.Permits flags a)
      (fun _ m' => (flags.r || flags.w || flags.x) = false ∧ m' = m) m := by
  cases hflags : flags.r || flags.w || flags.x with
  | false =>
    rw [total_bind]
    apply (checkFlags_total m virt flags).mono _ fun _ _ heq => ⟨rfl, heq⟩
    rintro _ _ ⟨rfl, -⟩
    rw [updatePageFlags, hflags]
    exact ⟨rfl, rfl⟩
  | true =>
    obtain ⟨hr, hw, hx⟩ := rights_le_iff.mp h.rights
    have hcheck : checkFlags virt flags m = .ok () m := by
      have hexisting : m.pageFlags virt =
          some { r := (m.entry virt).r, w := (m.entry virt).w, x := (m.entry virt).x } := by
        grind [pageFlags, Permits]
      have hadds : MemoryFlags.adds
          { r := (m.entry virt).r, w := (m.entry virt).w, x := (m.entry virt).x } flags = false := by
        grind [MemoryFlags.adds, Permits]
      simp [checkFlags, bind_apply, hexisting, ofOption, hadds]
    have hupdate : updatePageFlags virt flags m = .ok () (m.setEntry virt
        { m.entry virt with r := flags.r, w := flags.w, x := flags.x }) := by
      have hkept : ∀ asked there : Bool, (asked = true → there = true) →
          (asked && !there) = false ∧ (there && asked) = asked := by decide
      simp only [updatePageFlags, hflags, bind_apply, gets_apply, h.root, h.unshared,
        hkept _ _ hr, hkept _ _ hw, hkept _ _ hx, Bool.not_true, Bool.false_eq_true, if_false,
        modify_apply]
    rw [total_bind, total_of_ok hcheck, total_of_ok hupdate]
    refine ⟨rfl, fun q v => ?_, fun a ha => ?_⟩
    · rw [setEntry_pt]
      split
      next heq =>
        rw [heq.1, heq.2]
        exact h.rights
      next => exact le_rfl
    · have hentry : ∀ e, (m.setEntry virt e).entry a = if vpn a = vpn virt then e else m.entry a := by
        intro e
        rw [entry, setEntry_pt]
        exact if_congr (and_iff_right rfl) rfl rfl
      refine ⟨ha.root, ?_, ha.reserve, ?_⟩ <;> rw [hentry] <;> split
      · exact h.unshared
      · exact ha.unshared
      · exact le_rfl
      · exact ha.rights

theorem updates_total (xs : List Nat) (h : ∀ a ∈ xs, m.Permits flags a) :
    Total (forEach xs fun virt => do checkFlags virt flags; updatePageFlags virt flags)
      (fun _ m' => ∀ q v, (m'.mem.pt q v).rights ≤ (m.mem.pt q v).rights)
      (fun _ m' => (flags.r || flags.w || flags.x) = false ∧ m' = m) m := by
  induction xs generalizing m with
  | nil => exact fun _ _ => le_rfl
  | cons virt rest ih =>
    rw [forEach, total_bind]
    apply (updatePage_total (h virt (.head _))).imp
    rintro _ m1 ⟨hflags, hrights, hpermits⟩
    apply (ih fun a ha => hpermits a (h a (.tail _ ha))).mono
    · exact fun _ m2 hrights2 q v => (hrights2 q v).trans (hrights q v)
    · exact fun _ _ hnone => by simp [hflags] at hnone

theorem checks_total (xs : List Nat) :
    Total (forEach xs fun virt => checkFlags virt flags)
      (fun _ m' => m' = m ∧ ∀ a ∈ xs, m.Permits flags a) (fun _ m' => m' = m) m := by
  induction xs with
  | nil => exact ⟨rfl, nofun⟩
  | cons virt rest ih =>
    apply (checkFlags_total m virt flags).bind
    rintro _ _ ⟨rfl, hpermits⟩
    apply ih.imp
    rintro _ _ ⟨rfl, hrest⟩
    exact ⟨rfl, List.forall_mem_cons.mpr ⟨hpermits, hrest⟩⟩

end Flags

/-- An update of the flags of a range adds no permission to any page, and one that fails changes
nothing. -/
theorem flag_update_adds_no_permission (m : Machine) (range : MemoryRange) (flags : MemoryFlags) :
    Total (updateMemoryFlags range flags)
      (fun _ m' => ∀ q v, (m'.mem.pt q v).rights ≤ (m.mem.pt q v).rights) (fun _ m' => m' = m) m := by
  unfold updateMemoryFlags
  rw [total_ite]
  refine ⟨fun _ => rfl, fun _ => ?_⟩
  rw [total_ite]
  refine ⟨fun _ => rfl, fun _ => ?_⟩
  apply (checks_total _).bind
  rintro _ _ ⟨rfl, hpermits⟩
  exact (updates_total _ hpermits).mono (fun _ _ h => h) fun _ _ h => h.2

structure Region where
  start : Nat
  limit : Nat
  /-- Where the search begins. -/
  initial : Nat

/-- The region of a kind of memory. In the heap one place is asked for, past its present size. -/
def Machine.region (m : Machine) (kind : MemoryType) : Region :=
  let inner := m.arch m.satp
  match kind with
  | .stack => ⟨0, 0, 0⟩
  | .heap => ⟨inner.memHeapBase, wadd inner.memHeapBase inner.memHeapMax,
      wadd (wadd inner.memHeapBase inner.memHeapSize) pageSize⟩
  | .default => ⟨inner.memDefaultBase, wadd inner.memDefaultBase 0x10000000, inner.memDefaultLast⟩
  | .messages => ⟨inner.memMessageBase, wadd inner.memMessageBase 0x400000, inner.memMessageLast⟩

structure Region.Sound (r : Region) : Prop where
  start : r.start % pageSize = 0
  initial : r.initial % pageSize = 0
  order : r.start ≤ r.initial

structure Region.Fits (r : Region) (m : Machine) (size virt : Nat) : Prop where
  aligned : virt % pageSize = 0
  lower : r.start ≤ virt
  upper : virt + size ≤ r.limit
  unwrapped : virt + size < 2 ^ 32
  free : ∀ page ∈ pages virt (virt + size), m.addressAvailable page = true

/-- The subtraction of the size does not wrap, and a search that meets a free place meets one inside
the region. The place in the heap is aligned and free, and the test of its end does not wrap. -/
def Machine.HasRoom (m : Machine) (size : Nat) (kind : MemoryType) : Prop :=
  let r := m.region kind
  match kind with
  | .stack => True
  | .heap => wadd r.initial size ≤ r.limit → r.start ≤ r.initial ∧ r.initial % pageSize = 0 ∧
      r.initial + size < 2 ^ 32 ∧ m.allFree size r.initial = true
  | .default | .messages => size ≤ r.limit ∧
      ((∃ v, m.Finds size r.start r.limit r.initial v) →
        ∃ v, m.Finds size r.start r.limit r.initial v ∧ v + size ≤ r.limit)

section Search

variable {m : Machine} {r : Region} {size v w : Nat}

theorem allFree_iff (h : v + size < 2 ^ 32) :
    m.allFree size v = true ↔ ∀ page ∈ pages v (v + size), m.addressAvailable page = true := by
  rw [allFree, List.all_eq_true, wadd, Nat.mod_eq_of_lt h]

theorem find?_pages_le {p : Nat → Bool} {lo hi : Nat} (hv : (pages lo hi).find? p = some v)
    (hw : w ∈ pages lo hi) (hp : p w = true) : v ≤ w := by
  obtain ⟨-, i, hi, rfl, hbefore⟩ := List.find?_eq_some_iff_getElem.mp hv
  obtain ⟨j, hj, rfl⟩ := List.getElem_of_mem hw
  have hle : i ≤ j := by
    by_contra hlt
    have := hbefore j (by omega)
    rw [hp] at this
    cases this
  simp only [pages, List.getElem_range']
  exact Nat.add_le_add_left (Nat.mul_le_mul_left _ hle) lo

/-- A place inside of the region is met before those that reach past its limit. -/
theorem findFree_le (hsize : size ≤ r.limit) (hlimit : r.limit < 2 ^ 32)
    (hv : m.findFree size r.start r.limit r.initial = some v)
    (hw : m.Finds size r.start r.limit r.initial w) (hroom : w + size ≤ r.limit) : v + size ≤ r.limit := by
  have hsub : wsub r.limit size = r.limit - size := by
    unfold wsub
    omega
  rw [findFree, hsub, Option.or_eq_some_iff] at hv
  rcases hv with hfirst | ⟨hnone, hsecond⟩
  · have := mem_pages.mp (List.mem_of_find?_eq_some hfirst)
    omega
  · rcases hw.bounds with hw' | hw'
    · rw [hsub] at hw'
      exact absurd hw.free (List.find?_eq_none.mp hnone w hw')
    · have := find?_pages_le hsecond hw' hw.free
      omega

theorem search_fits_iff (h : r.Sound) (hlimit : r.limit < 2 ^ 32) (hsize : size ≤ r.limit) :
    (∀ v, m.findFree size r.start r.limit r.initial = some v → r.Fits m size v) ↔
      ((∃ v, m.Finds size r.start r.limit r.initial v) →
        ∃ v, m.Finds size r.start r.limit r.initial v ∧ v + size ≤ r.limit) := by
  constructor
  · rintro hfits ⟨w, hw⟩
    cases hfound : m.findFree size r.start r.limit r.initial with
    | some v => exact ⟨v, findFree_finds hfound, (hfits v hfound).upper⟩
    | none =>
      rw [findFree, Option.or_eq_none_iff, List.find?_eq_none, List.find?_eq_none] at hfound
      exact absurd hw.free (hw.bounds.elim (hfound.1 w) (hfound.2 w))
  · intro hroom v hv
    have hfinds := findFree_finds hv
    obtain ⟨w, hw, hinside⟩ := hroom ⟨v, hfinds⟩
    have hupper := findFree_le hsize hlimit hv hw hinside
    have hplace : v % pageSize = 0 ∧ r.start ≤ v := by
      have := h.order
      rcases hfinds.bounds with hmem | hmem
      · have := (mem_pages_aligned h.initial).mp hmem
        omega
      · have := (mem_pages_aligned h.start).mp hmem
        omega
    exact ⟨hplace.1, hplace.2, hupper, by omega, (allFree_iff (by omega)).mp hfinds.free⟩

end Search

/-- The pages found are free and inside the region, and no request is longer than the region, just when there is room. -/
theorem place_is_free_iff (m : Machine) (size : Nat) (kind : MemoryType)
    (h : kind = .default ∨ kind = .messages → (m.region kind).Sound) :
    Total (findVirtualAddress 0 size kind) (fun virt _ => (m.region kind).Fits m size virt)
        (fun _ _ => True) m ∧
      (kind = .default ∨ kind = .messages → size ≤ (m.region kind).limit) ↔ m.HasRoom size kind := by
  unfold findVirtualAddress HasRoom
  rw [if_neg (by simp), total_bind, total_get]
  cases kind with
  | stack => simp
  | heap =>
    simp only [total_ite, total_fail, total_pure, imp_true_iff, true_and, not_lt, reduceCtorEq, or_self,
      false_imp_iff, and_true]
    refine imp_congr_right fun hle => ⟨fun hfits => ?_, ?_⟩
    · exact ⟨hfits.lower, hfits.aligned, hfits.unwrapped, (allFree_iff hfits.unwrapped).mpr hfits.free⟩
    · rintro ⟨hlower, haligned, hlt, hfree⟩
      exact ⟨haligned, hlower, (Nat.mod_eq_of_lt hlt).symm.trans_le hle, hlt, (allFree_iff hlt).mp hfree⟩
  | default | messages =>
    simp only [total_bind, total_ofOption, total_modify, total_pure, true_or, or_true, true_imp_iff,
      imp_true_iff, and_true]
    rw [and_comm]
    exact and_congr_right fun hsize => search_fits_iff (h (by simp)) (wadd_lt _ _) hsize

def smallMachine : Machine := (smallKernel (.ready (threadBit 2)) idleServer).core.machine

theorem page_of_default_is_free : (Total (findVirtualAddress 0 0x1000 .default)
    (fun virt _ => (smallMachine.region .default).Fits smallMachine 0x1000 virt) (fun _ _ => True)
    smallMachine) ∧ 0x1000 ≤ (smallMachine.region .default).limit := by
  have hplace : smallMachine.Finds 0x1000 (smallMachine.region .default).start
      (smallMachine.region .default).limit (smallMachine.region .default).initial
      (smallMachine.region .default).initial :=
    ⟨by decide +kernel, .inl ((mem_pages_aligned (by decide)).mpr (by decide +kernel))⟩
  exact ((place_is_free_iff smallMachine 0x1000 .default fun _ => ⟨by decide, by decide, by decide⟩).mpr
    ⟨by decide, fun _ => ⟨_, hplace, by decide⟩⟩).imp_right fun h => h (by simp)

/-- The place for more bytes than the region has is found, at its start. -/
theorem oversized_range_is_placed :
    ¬ Total (findVirtualAddress 0 0xfffff000 .default)
      (fun virt _ => (smallMachine.region .default).Fits smallMachine 0xfffff000 virt)
      (fun _ _ => True) smallMachine := by
  have hreturns : (findVirtualAddress 0 0xfffff000 .default smallMachine).returns
    (fun virt _ => decide (2 ^ 32 ≤ virt + 0xfffff000)) = true := by decide +kernel
  obtain ⟨virt, m', hrun, hwraps⟩ := Outcome.exists_of_returns hreturns
  intro h
  have := (h.post.ok hrun).unwrapped
  simp at hwraps
  omega

section Lend

variable {m m1 : Machine} {phys srcAddr destAddr : Nat} {dest : PID}

/-- A page that is mapped has a leaf table then. If it had one before, nothing but its entry has
changed. -/
theorem mapPageInner_result (pid : PID) (phys virt : Nat) (flags : MemoryFlags) (user : Bool) (m : Machine) :
    Post (mapPageInner pid phys virt flags user) (fun _ m' => virt % pageSize = 0 ∧ m'.rootValid virt = true ∧
        m'.entry virt = mappedEntry phys flags user ∧
        (m.rootValid virt = true → m' = m.setEntry virt (mappedEntry phys flags user)))
      (fun _ _ => True) m := by
  rw [mapPageInner, mapPageWith, post_bind, post_assert]
  intro hvirt
  rw [post_bind, post_gets]
  refine Post.bind (R := fun _ m' => m'.rootValid virt = true ∧ (m.rootValid virt = true → m' = m)) ?_ ?_
  · refine (post_when _ _).mpr ⟨fun hroot => ?_, fun hroot => ⟨by simpa using hroot, fun _ => rfl⟩⟩
    simp only [post_bind, post_modify]
    refine (allocPage_post pid m).mono ?_ fun _ _ _ => trivial
    rintro l0 _ ⟨allocations, lastRamPage, rfl⟩
    refine Post.mono (((Allowance.stable_root m.satp (vpn1 virt)).mapPageWith 2 pid l0 _ _ _ _ ?_).and
      ((stable_satp m.satp).mapPageWith 2 pid l0 _ _ _ _ ?_)) ?_ fun _ _ _ => trivial
    · simp [setRoot]
    · rfl
    · rintro _ m' ⟨hroot', hsatp⟩
      refine ⟨?_, by simp_all⟩
      rw [← hroot', ← hsatp]
      rfl
  · rintro _ m' ⟨hroot, hsame⟩
    rw [post_bind, post_gets, post_ite, post_modify]
    refine ⟨fun _ => trivial, fun _ => ⟨by simpa using hvirt, hroot, setEntry_entry _ _ _, fun h => ?_⟩⟩
    rw [hsame h]
    rfl

/-- The tables of two processes after one of them has lent the page at `srcAddr`. -/
structure Machine.Lent (m m1 : Machine) (srcAddr : Nat) (dest : PID) (destAddr : Nat) (isMutable : Bool) :
    Prop where
  accepted : srcAddr % 4 = 0 ∧ m.rootValid srcAddr = true ∧ (m.entry srcAddr).valid = true ∧
    (m.entry srcAddr).s = false
  lender : ∀ v, m1.mem.pt m.satp v =
    if v = vpn srcAddr then { m.entry srcAddr with valid := false, s := true } else m.mem.pt m.satp v
  roots : m1.mem.l1 m.satp = m.mem.l1 m.satp
  aligned : destAddr % pageSize = 0
  table : m1.mem.l1 dest (vpn1 destAddr) = true
  borrower : ∃ phys user, m1.mem.pt dest (vpn destAddr) =
    mappedEntry phys { r := true, w := isMutable && (m.entry srcAddr).w } user
  others : m.mem.l1 dest (vpn1 destAddr) = true → m1.mem.l1 dest = m.mem.l1 dest ∧
    ∀ v, v ≠ vpn destAddr → m1.mem.pt dest v = m.mem.pt dest v

theorem lendPageInner_lent (hdest : dest ≠ m.satp) (destPid : PID) (isMutable : Bool) :
    Post (lendPageInner m.satp srcAddr destPid dest destAddr isMutable)
      (fun _ m1 => m.Lent m1 srcAddr dest destAddr isMutable) (fun _ _ => True) m := by
  unfold lendPageInner pagetableEntry
  simp only [post_bind, post_ite, post_fail, post_gets, imp_true_iff, true_and, and_true, post_modify,
    post_activateMapping, post_attempt]
  intro hfour hroot hvalid hunshared
  refine Post.mono ((mapPageInner_result _ _ _ _ _ _).and (((stable_other m.satp ((m.setEntry srcAddr
    { m.entry srcAddr with valid := false, s := true }).mem.pt m.satp) (m.mem.l1 m.satp)
    (m.arch m.satp)).mapPageInner _ _ _ _ _ _ ?_).and ((stable_satp dest).mapPageInner _ _ _ _ _ _ ?_)))
    ?_ fun _ _ _ => trivial
  · exact ⟨hdest, rfl, rfl, rfl⟩
  · rfl
  rintro _ m1 ⟨⟨haligned, htable, hentry, hsame⟩, ⟨-, hpt, hl1, -⟩, rfl⟩
  refine ⟨⟨by simpa using hfour, hroot, by simpa using hvalid, by simpa using hunshared⟩, fun v => ?_, hl1, haligned, htable,
    ⟨_, _, hentry⟩, fun hold => ?_⟩
  · rw [congrFun hpt v, setEntry_pt]
    simp
  · have h := hsame hold
    refine ⟨?_, fun v hv => ?_⟩
    · rw [show m1.mem.l1 = _ from congrArg (·.mem.l1) h]
      rfl
    · rw [show m1.mem.pt m1.satp v = _ from congrArg (·.mem.pt m1.satp v) h]
      rw [setEntry_of_ne _ _ _ (.inr hv)]
      exact setEntry_of_ne _ _ _ (.inl hdest)

/-- A lent page comes back with both tables as they were just when it was not wired and the
borrower's table had room. -/
theorem lent_page_restored_iff {destPid : PID} {isMutable : Bool} (hdest : dest ≠ m.satp)
    (hlend : lendPageInner m.satp srcAddr destPid dest destAddr isMutable m = .ok phys m1) :
    (isMutable = false → (m1.mem.pt dest (vpn destAddr)).w = false) ∧
      (Total (returnPageInner dest destAddr m.satp srcAddr)
          (fun _ m2 => m2.mem.pt m.satp = m.mem.pt m.satp ∧ m2.mem.pt dest = m.mem.pt dest ∧
            m2.mem.l1 dest = m.mem.l1 dest)
          (fun _ _ => False) { m1 with satp := dest } ↔
        (m.entry srcAddr).p = false ∧ m.mem.l1 dest (vpn1 destAddr) = true ∧
          m.mem.pt dest (vpn destAddr) = .zero) := by
  have h := (lendPageInner_lent hdest destPid isMutable).ok hlend
  obtain ⟨hfour, hroot, hvalid, hunshared⟩ := h.accepted
  obtain ⟨_, _, hentry⟩ := h.borrower
  refine ⟨?_, ?_⟩
  · rintro rfl
    rw [hentry]
    rfl
  have hfour' : destAddr % 4 = 0 := by
    have := h.aligned
    simp only [pageSize] at this
    omega
  have hlender : m1.mem.pt m.satp (vpn srcAddr) = { m.entry srcAddr with valid := false, s := true } := by
    rw [h.lender, if_pos rfl]
  refine Iff.trans (b := (∀ v, (if v = vpn srcAddr then
      { m.entry srcAddr with valid := true, s := false, p := false } else m1.mem.pt m.satp v) =
        m.mem.pt m.satp v) ∧ (∀ v, (if v = vpn destAddr then .zero else m1.mem.pt dest v) =
        m.mem.pt dest v) ∧ ∀ i, m1.mem.l1 dest i = m.mem.l1 dest i) ?_ ⟨?_, ?_⟩
  · have hroot : m.mem.l1 m.satp (vpn1 srcAddr) = true := hroot
    simp [returnPageInner, pagetableEntry, activateMapping, total_ite, hfour, hfour', rootValid, h.table,
      entry, hentry, h.roots, hlender, setEntry_pt, hdest, hdest.symm, mappedEntry, hroot, funext_iff]
  · rintro ⟨hlent, hborrowed, hroots⟩
    have hp := congrArg PTE.p (hlent (vpn srcAddr))
    have hzero := hborrowed (vpn destAddr)
    rw [if_pos rfl] at hp hzero
    exact ⟨hp.symm, (hroots _).symm.trans h.table, hzero.symm⟩
  · rintro ⟨hp, htable, hzero⟩
    obtain ⟨hroots, hothers⟩ := h.others htable
    refine ⟨fun v => ?_, fun v => ?_, congrFun hroots⟩
    · split_ifs with hv
      · rw [hv]
        change _ = m.entry srcAddr
        generalize m.entry srcAddr = e at *
        cases e
        simp_all
      · rw [h.lender, if_neg hv]
    · split_ifs with hv
      · rw [hv, hzero]
      · exact hothers v hv

end Lend

theorem lent_page_is_restored : Total (returnPageInner pid3 0x40000000 pid2 0x20000000)
    (fun _ m2 => m2.mem.pt pid2 = lenderMachine.mem.pt pid2 ∧ m2.mem.pt pid3 = lenderMachine.mem.pt pid3 ∧
      m2.mem.l1 pid3 = lenderMachine.mem.l1 pid3) (fun _ _ => False) { lentMachine with satp := pid3 } :=
  (lent_page_restored_iff (m := lenderMachine) (by decide) lenderMachine_lends).2.mpr
    ⟨rfl, rfl, rfl⟩

/-- The page of process 2 is in the range that `map_range` reserves with `P`; a fault has backed it. -/
def wiredMachine : Machine :=
  { lenderMachine with
    mem := { lenderMachine.mem with
      l1 := fun pid i => (pid = pid2 ∧ i = 0x2C0) ∨ (pid = pid3 ∧ i = 0x100)
      pt := fun pid v =>
        if pid = pid2 ∧ v = 0xB0000 then
          { ppn := 0x61003, valid := true, r := true, user := true, a := true, d := true, p := true }
        else .zero } }

/-- The return clears a bit that the entry of the lender had before. -/
theorem wired_page_is_not_restored :
    ∃ phys m1 m2, lendPageInner pid2 0xB0000000 pid3 pid3 0x40000000 false wiredMachine = .ok phys m1 ∧
      returnPageInner pid3 0x40000000 pid2 0xB0000000 { m1 with satp := pid3 } = .ok phys m2 ∧
      m2.mem.pt pid2 ≠ wiredMachine.mem.pt pid2 := by
  refine ⟨_, _, _, rfl, rfl, fun h => ?_⟩
  exact absurd (congrArg PTE.p (congrFun h (vpn 0xB0000000))) (by decide +kernel)

end BaochipXous.Kernel
