import BaochipXous.KernelSwap
import BaochipXous.LibRely

/-!
The count of used pages: one more for an update of the tracker with an owner, one less for one
without. A move of a page that has an owner counts it again, and a release of a page that has none
counts down.
-/

namespace BaochipXous.Kernel.Swap

open Prog Tracker EntryOp Labelled

variable (t : Tracker)

theorem renormalizeAllocs_post :
    Post renormalizeAllocs (fun _ t' => ∃ timestamps, t' = t.retime t.epoch timestamps) (fun _ _ => False) t := by
  unfold renormalizeAllocs
  rw [post_bind, post_get]
  split
  · trivial
  · rw [post_bind, post_modify]
    split
    · exact ⟨_, rfl⟩
    · trivial

theorem nextEpoch_post :
    Post nextEpoch (fun epoch t' => ∃ timestamps, t' = t.retime epoch timestamps) (fun _ _ => False) t := by
  unfold nextEpoch
  rw [post_bind, post_gets, post_ite]
  constructor
  · exact fun _ => ⟨t.timestamp, rfl⟩
  · intro _
    apply (renormalizeAllocs_post t).bind
    rintro last _ ⟨timestamps, rfl⟩
    exact ⟨timestamps, rfl⟩

theorem EntryOp.run_post (op : EntryOp) (t : Tracker) :
    Post op.run (fun _ t' => ∃ epoch timestamps, t' = op.apply t epoch timestamps) (fun _ _ => False) t := by
  have hnext := nextEpoch_post t
  cases hrun : nextEpoch t with
  | ok epoch t1 =>
    obtain ⟨timestamps, rfl⟩ := hnext.ok hrun
    rw [Post, op.run_eq hrun]
    exact ⟨epoch, timestamps, rfl⟩
  | err e t1 => exact (hnext.err hrun).elim
  | panic =>
    have hpanic : op.run t = .panic := by
      cases op <;> simp only [run, touchEntry, updateEntry, reparentEntry, bind_apply, hrun]
    rw [Post, hpanic]
    trivial

namespace Tracker

def owner (i : Nat) : Option PID := (t.allocations i).pid

def ownedPages : Nat := (List.range t.pageCount).countP fun i => (t.owner i).isSome

def Counts : Prop := t.usedPages = t.ownedPages

theorem ownedPages_le : t.ownedPages ≤ t.pageCount :=
  List.countP_le_length.trans_eq List.length_range

end Tracker

theorem countP_range_update {p q : Nat → Bool} {n i : Nat} (hi : i < n) (hpq : ∀ j, j ≠ i → p j = q j) :
    (List.range n).countP p + (q i).toNat = (List.range n).countP q + (p i).toNat := by
  induction n with
  | zero => omega
  | succ n ih =>
    simp only [List.range_succ, List.countP_append, List.countP_cons, List.countP_nil]
    by_cases heq : i = n
    · have hsame : (List.range n).countP p = (List.range n).countP q := by
        apply List.countP_congr
        intro j hj
        rw [hpq j (by have := List.mem_range.mp hj; omega)]
      subst heq
      cases p i <;> cases q i <;> simp [hsame]
    · have := ih (by omega)
      rw [hpq n (Ne.symm heq)]
      omega

namespace EntryOp

variable (op : EntryOp) {t : Tracker} {epoch : Nat} {timestamps : Nat → Nat}

theorem apply_owner_self : (op.apply t epoch timestamps).owner op.index = (op.entry (t.allocations op.index)).pid := by
  simp [apply, owner]

theorem apply_owner_of_ne {j : Nat} (hj : j ≠ op.index) : (op.apply t epoch timestamps).owner j = t.owner j := by
  simp [apply, owner, Function.update_of_ne hj, retime]

/-- The operation is counted as what it does to the owner. -/
def counted (t : Tracker) : EntryOp → Bool
  | touch _ => true
  | update i (some _) _ => (t.owner i).isNone
  | update i none _ => (t.owner i).isSome || decide (t.usedPages = 0)
  | reparent i _ => (t.owner i).isSome

theorem apply_counts (hi : op.index < t.pageCount) (hcount : t.pageCount ≤ 2 ^ 20) (ht : t.Counts) :
    (op.apply t epoch timestamps).Counts ↔ op.counted t = true := by
  have howned : (op.apply t epoch timestamps).ownedPages + _ = t.ownedPages + _ :=
    countP_range_update (p := fun i => ((op.apply t epoch timestamps).owner i).isSome)
      (q := fun i => (t.owner i).isSome) hi fun j hj => by rw [op.apply_owner_of_ne hj]
  rw [op.apply_owner_self] at howned
  have hle := t.ownedPages_le
  have hused : (op.apply t epoch timestamps).usedPages = op.used t.usedPages := rfl
  rw [Tracker.Counts] at ht
  rw [Tracker.Counts, hused]
  cases op with
  | touch i =>
    simp only [entry, index, used, counted, owner, iff_true] at howned ⊢
    omega
  | reparent i pid =>
    simp only [entry, index, used, counted, Option.isSome_some, Bool.toNat_true] at howned ⊢
    cases h : (t.owner i).isSome <;> simp [h] at howned ⊢ <;> omega
  | update i pid vaddr =>
    cases pid with
    | some pid =>
      have hsome : ((t.allocations i).assign (some pid) vaddr).pid = some pid := by
        cases vaddr <;> rfl
      simp only [entry, index, used, counted, hsome, Option.isSome_some, Bool.toNat_true,
        ↓reduceIte, saturatingAdd] at howned ⊢
      cases h : t.owner i <;> simp [h] at howned ⊢ <;> omega
    | none =>
      have hnone : ((t.allocations i).assign none vaddr).pid = none := rfl
      simp only [entry, index, used, counted, hnone, Option.isSome_none, Bool.toNat_false,
        Bool.false_eq_true, ↓reduceIte] at howned ⊢
      cases h : t.owner i <;> simp [h] at howned ⊢ <;> omega

end EntryOp

structure Tracker.Agrees (t t' : Tracker) : Prop where
  ramStart : t'.ramStart = t.ramStart
  ramSize : t'.ramSize = t.ramSize
  allocations : t'.allocations = t.allocations
  usedPages : t'.usedPages = t.usedPages
  processes : t'.processes = t.processes

variable {t t' : Tracker}

theorem Tracker.Agrees.owner (h : t.Agrees t') : t'.owner = t.owner := by
  unfold Tracker.owner
  rw [h.allocations]

/-- A call that does at most one operation on an entry. -/
def Effect (t : Tracker) : Option EntryOp → Tracker → Prop
  | none, t' => t.Agrees t'
  | some op, t' => op.index < t.pageCount ∧
      ∃ epoch timestamps, (op.apply t epoch timestamps).Agrees t'

/-- The operation on the entry of an address that a claim, release or move comes to. -/
def actionOp (t : Tracker) (addr : Nat) (pid : PID) (action : ClaimReleaseMove) : Option EntryOp :=
  if addr % pageSize ≠ 0 ∨ t.isMainMemory addr = false ∨ t.foreign addr pid action then none
  else
    match action with
    | .claim =>
      if (t.ownerOf addr).isNone then some (.update (t.offset addr) (some pid) (some addr)) else none
    | .move _ => some (.update (t.offset addr) (some pid) (some addr))
    | .release => some (.update (t.offset addr) none none)

theorem Tracker.Agrees.refl (t : Tracker) : t.Agrees t := ⟨rfl, rfl, rfl, rfl, rfl⟩

theorem EntryOp.run_effect (op : EntryOp) (hi : op.index < t.pageCount) :
    Post op.run (fun _ => Effect t (some op)) (fun _ _ => False) t := by
  apply (op.run_post t).imp
  rintro _ t' ⟨epoch, timestamps, rfl⟩
  exact ⟨hi, epoch, timestamps, .refl _⟩

/-- An accepted action is by the owner of the page, or for a page without owner. A refused one
changes nothing; a move or release is refused for a page of another process only. -/
theorem claimReleaseMove_effect (t : Tracker) (addr : Nat) (pid : PID) (action : ClaimReleaseMove) :
    Post (claimReleaseMove addr pid action) (fun _ t' => Effect t (actionOp t addr pid action) t' ∧
        (t.isMainMemory addr = true → t.foreign addr pid action = false))
      (fun _ t' => Effect t (actionOp t addr pid action) t' ∧ t' = t ∧
        (addr % pageSize = 0 → t.isMainMemory addr = true → action ≠ .claim → t.foreign addr pid action = true)) t := by
  unfold claimReleaseMove actionOp
  rw [post_ite]
  refine ⟨fun halign => ?_, fun halign => ?_⟩
  · rw [post_fail, if_pos (Or.inl halign)]
    exact ⟨.refl t, rfl, fun h => absurd h halign⟩
  rw [post_bind, post_get, post_ite]
  refine ⟨fun hmain => ?_, fun hmain => ?_⟩
  · unfold actionInnerTracking
    rw [post_bind, post_get, post_bind, post_assert, post_ite]
    intro hi
    rw [decide_eq_true_eq] at hi
    refine ⟨fun hforeign => ?_, fun hforeign => ?_⟩
    · rw [post_fail, if_pos (Or.inr (Or.inr hforeign))]
      exact ⟨.refl t, rfl, fun _ _ _ => hforeign⟩
    have hacts : ¬(addr % pageSize ≠ 0 ∨ t.isMainMemory addr = false ∨ t.foreign addr pid action = true) := by simp_all
    rw [if_neg hacts]
    have hrun : ∀ (op : EntryOp) (E : Error → Tracker → Prop), op.index < t.pageCount →
        Post op.run (fun _ t' => Effect t (some op) t' ∧
          (t.isMainMemory addr = true → t.foreign addr pid action = false)) E t := by
      intro op E hop
      exact (op.run_effect hop).never.imp fun _ _ heffect => ⟨heffect, fun _ => by simpa using hforeign⟩
    cases action with
    | claim =>
      dsimp only
      by_cases hfree : (t.ownerOf addr).isNone
      · rw [if_pos hfree, if_pos hfree]
        exact hrun (.update (t.offset addr) (some pid) (some addr)) _ hi
      · rw [if_neg hfree, if_neg hfree]
        exact ⟨.refl t, rfl, fun _ _ hne => absurd rfl hne⟩
    | move existing => exact hrun (.update (t.offset addr) (some pid) (some addr)) _ hi
    | release => exact hrun (.update (t.offset addr) none none) _ hi
  · -- the owners of the further regions are not counted
    rw [if_pos (Or.inr (Or.inl (by simpa using hmain)))]
    split
    · exact ⟨.refl t, rfl, fun _ h => absurd h hmain⟩
    · rw [post_bind, post_ofExcept]
      exact ⟨fun _ _ => ⟨⟨rfl, rfl, rfl, rfl, rfl⟩, fun h => absurd h hmain⟩,
        fun _ _ => ⟨.refl t, rfl, fun _ h => absurd h hmain⟩⟩

theorem touch_effect (t : Tracker) (paddr : Nat) :
    Post (touch paddr) (fun _ => Effect t (if t.isMainMemory paddr then some (.touch (t.offset paddr)) else none))
      (fun _ _ => False) t := by
  unfold touch
  rw [post_bind, post_get, post_ite]
  refine ⟨fun hmain => ?_, fun hmain => ?_⟩
  · rw [if_pos hmain, post_bind, post_assert, decide_eq_true_eq]
    exact fun hi => run_effect (.touch (t.offset paddr)) hi
  · rw [if_neg hmain]
    exact .refl t

theorem allocPageOomable_effect (t : Tracker) (pid : PID) (vaddr : Option Nat) :
    Post (allocPageOomable pid vaddr) (fun phys t' => ∃ i, phys = t.address i ∧ t.owner i = none ∧
        Effect t (some (.update i (some pid) vaddr)) t') (fun _ _ => False) t := by
  unfold allocPageOomable
  rw [post_bind, post_get, post_bind, post_assert, decide_eq_true_eq]
  intro hpoint
  split
  next i hfound =>
    have hfree : t.owner i = none := by simpa [owner] using List.find?_some hfound
    have hi : i < t.pageCount :=
      (List.mem_range.mp (List.mem_of_find?_eq_some hfound)).trans_le hpoint
    apply (run_effect (.update i (some pid) vaddr) hi).bind
    rintro _ t' ⟨-, epoch, timestamps, hagrees⟩
    rw [post_bind, post_modify, post_pure]
    exact ⟨i, rfl, hfree, hi, epoch, timestamps, hagrees.ramStart, hagrees.ramSize,
      hagrees.allocations, hagrees.usedPages, hagrees.processes⟩
  next => trivial

/-- Every page with an owner belongs to a process, and the kernel is one of them. -/
structure Tracker.Live (t : Tracker) : Prop where
  ramSize : t.ramSize < 2 ^ 32
  nodup : t.processes.Nodup
  kernel : pid1 ∈ t.processes
  owners : ∀ i < t.pageCount, ∀ p, t.owner i = some p → p ∈ t.processes

namespace Tracker

variable {t t' : Tracker}

theorem Agrees.pageCount (h : t.Agrees t') : t'.pageCount = t.pageCount := by
  rw [Tracker.pageCount, Tracker.pageCount, h.ramSize]

theorem Agrees.counts (h : t.Agrees t') : t'.Counts ↔ t.Counts := by
  rw [Counts, Counts, ownedPages, ownedPages, h.usedPages, h.owner, h.pageCount]

theorem Agrees.live (h : t.Agrees t') (ht : t.Live) : t'.Live where
  ramSize := h.ramSize ▸ ht.ramSize
  nodup := h.processes ▸ ht.nodup
  kernel := h.processes ▸ ht.kernel
  owners := by
    rw [h.pageCount, h.owner, h.processes]
    exact ht.owners

theorem Live.pageCount_le (ht : t.Live) : t.pageCount ≤ 2 ^ 20 := by
  have := ht.ramSize
  simp only [pageCount, pageSize]
  omega

end Tracker

/-- The owner that an operation gives a page is a process. -/
def EntryOp.ForProcess (t : Tracker) (op : EntryOp) : Prop :=
  ∀ p, (op.entry (t.allocations op.index)).pid = some p → p ∈ t.processes

theorem EntryOp.apply_live {op : EntryOp} {epoch : Nat} {timestamps : Nat → Nat}
    (ht : t.Live) (hop : op.ForProcess t) : (op.apply t epoch timestamps).Live := by
  refine ⟨ht.ramSize, ht.nodup, ht.kernel, ?_⟩
  intro i hi p hp
  by_cases heq : i = op.index
  · rw [heq, op.apply_owner_self] at hp
    exact hop p hp
  · rw [op.apply_owner_of_ne heq] at hp
    exact ht.owners i hi p hp

theorem Effect.live {op? : Option EntryOp} (h : Effect t op? t') (ht : t.Live)
    (hop : ∀ op ∈ op?, op.ForProcess t) : t'.Live := by
  cases op? with
  | none => exact Tracker.Agrees.live h ht
  | some op =>
    obtain ⟨-, epoch, timestamps, hagrees⟩ := h
    exact hagrees.live (apply_live ht (hop op rfl))

theorem Effect.counts {op? : Option EntryOp} (h : Effect t op? t') (hlive : t.Live)
    (ht : t.Counts) : t'.Counts ↔ ∀ op ∈ op?, op.counted t = true := by
  cases op? with
  | none => simpa using (Tracker.Agrees.counts h).mpr ht
  | some op =>
    obtain ⟨hi, epoch, timestamps, hagrees⟩ := h
    rw [hagrees.counts, op.apply_counts hi hlive.pageCount_le ht]
    simp

/-- While the pages of a process are given up, those gone through belong to others. -/
structure Leaving (t : Tracker) (pid : PID) (done : List Nat) (t' : Tracker) : Prop where
  ramSize : t'.ramSize = t.ramSize
  processes : t'.processes = t.processes
  live : t'.Live
  counts : t'.Counts
  gone : ∀ i ∈ done, t'.owner i ≠ some pid

variable {pid : PID}

theorem Leaving.of_agrees {t1 t2 : Tracker} {done : List Nat}
    (h : Leaving t pid done t1) (hagrees : t1.Agrees t2) : Leaving t pid done t2 where
  ramSize := hagrees.ramSize.trans h.ramSize
  processes := hagrees.processes.trans h.processes
  live := hagrees.live h.live
  counts := hagrees.counts.mpr h.counts
  gone := hagrees.owner ▸ h.gone

theorem Leaving.step {t1 t2 : Tracker} {done : List Nat} {op : EntryOp}
    (h : Leaving t pid done t1) (heffect : Effect t1 (some op) t2)
    (hprocess : op.ForProcess t1) (hcounted : op.counted t1 = true)
    (hleaves : (op.entry (t1.allocations op.index)).pid ≠ some pid) :
    Leaving t pid (done ++ [op.index]) t2 := by
  have hcounts : t2.Counts := (heffect.counts h.live h.counts).mpr (by simpa using hcounted)
  have hlive : t2.Live := heffect.live h.live (by simpa using hprocess)
  obtain ⟨-, epoch, timestamps, hagrees⟩ := heffect
  refine ⟨hagrees.ramSize.trans h.ramSize, hagrees.processes.trans h.processes, hlive, hcounts, ?_⟩
  intro i hi
  rw [hagrees.owner]
  by_cases heq : i = op.index
  · rwa [heq, op.apply_owner_self]
  · rw [op.apply_owner_of_ne heq]
    rcases List.mem_append.mp hi with hi | hi
    · exact h.gone i hi
    · exact absurd (List.mem_singleton.mp hi) heq

theorem releaseAllMemoryForProcess_post (pageIsLent : Nat → Bool) (hlive : t.Live) (ht : t.Counts) (hpid : pid ≠ pid1) :
    Post (releaseAllMemoryForProcess pid pageIsLent)
      (fun _ => Leaving t pid (List.range t.pageCount)) (fun _ _ => False) t := by
  unfold releaseAllMemoryForProcess
  rw [post_bind, post_get, post_bind]
  have hstart : Leaving t pid [] t := ⟨rfl, rfl, hlive, ht, by simp⟩
  apply (post_forEach_done (I := Leaving t pid) (List.range t.pageCount) [] _ hstart).mono
  · -- the further regions are not counted
    intro _ t1 h1
    apply post_forEach _ _ h1
    intro i _ t2 h2
    rw [post_bind, post_gets, post_ite]
    refine ⟨fun _ => ?_, fun _ => h2⟩
    split
    · trivial
    · exact h2.of_agrees ⟨rfl, rfl, rfl, rfl, rfl⟩
  · exact fun _ _ h => h
  · intro front i rest t1 hsplit h1
    have hi : i < t1.pageCount := by
      have hcount : t1.pageCount = t.pageCount := congrArg (· / pageSize) h1.ramSize
      rw [hcount, ← List.mem_range, ← List.nil_append (List.range _), hsplit]
      simp
    rw [post_bind, post_gets, post_ite]
    refine ⟨fun howner => ?_, fun howner => ?_⟩
    · rw [post_ite]
      have howned : t1.owner i = some pid := howner
      refine ⟨fun _ => ?_, fun _ => ?_⟩
      · apply (run_effect (.reparent i pid1) hi).imp
        intro _ t2 heffect
        apply h1.step heffect
        · rintro p ⟨rfl⟩
          exact h1.live.kernel
        · simp [counted, howned]
        · simpa [entry] using hpid.symm
      · apply (run_effect (.update i none none) hi).imp
        intro _ t2 heffect
        apply h1.step heffect
        · intro _ hnone
          cases hnone
        · simp [counted, howned]
        · intro hnone
          cases hnone
    · refine ⟨h1.ramSize, h1.processes, h1.live, h1.counts, ?_⟩
      intro j hj
      rcases List.mem_append.mp hj with hj | hj
      · exact h1.gone j hj
      · rwa [List.mem_singleton.mp hj]

theorem sum_map_eq_count (p : PID) (processes : List PID) :
    (processes.map fun q => if p = q then 1 else 0).sum = processes.count p := by
  induction processes with
  | nil => rfl
  | cons q rest ih =>
    rw [List.map_cons, List.sum_cons, ih, List.count_cons, Nat.add_comm]
    by_cases heq : p = q
    · simp [heq]
    · simp [heq, Ne.symm heq]

theorem sum_countP_owner {owner : Nat → Option PID} {processes : List PID} (n : Nat)
    (hnodup : processes.Nodup) (howners : ∀ i < n, ∀ p, owner i = some p → p ∈ processes) :
    (processes.map fun p => (List.range n).countP fun i => decide (owner i = some p)).sum =
      (List.range n).countP fun i => (owner i).isSome := by
  induction n with
  | zero => simp
  | succ n ih =>
    simp only [List.range_succ, List.countP_append, List.countP_singleton, decide_eq_true_eq, List.sum_map_add]
    rw [ih fun i hi => howners i (hi.trans n.lt_succ_self)]
    congr 1
    cases hn : owner n with
    | none => simp
    | some p =>
      have hmem := howners n n.lt_succ_self p hn
      have hcount : processes.count p = 1 := List.count_eq_one_of_mem hnodup hmem
      simp only [Option.some.injEq, Option.isSome_some, ↓reduceIte]
      rw [sum_map_eq_count, hcount]

theorem registerHandler_counts (handler state : Nat) (ht : t.Live) :
    Leaves (registerHandler handler state) (fun t' => t'.Live ∧ t'.Counts) t := by
  have hsum : (t.processes.map t.ramUsedBy).sum % 2 ^ 32 / pageSize = t.ownedPages := by
    have hmul : (t.processes.map t.ramUsedBy).sum = t.ownedPages * pageSize := by
      rw [ownedPages, ← sum_countP_owner t.pageCount ht.nodup ht.owners, ← List.sum_map_mul_right]
      rfl
    have hle := t.ownedPages_le
    have hsize := ht.ramSize
    rw [hmul]
    simp only [pageCount, pageSize] at hle ⊢
    omega
  unfold Leaves registerHandler
  rw [post_bind, post_modify, post_bind, post_get, post_ite]
  exact ⟨fun _ => ⟨⟨ht.ramSize, ht.nodup, ht.kernel, ht.owners⟩, hsum⟩,
    fun _ => ⟨⟨ht.ramSize, ht.nodup, ht.kernel, ht.owners⟩, hsum⟩⟩

def Tracker.tracks (t : Tracker) (addr : Nat) : Bool :=
  decide (addr % pageSize = 0) && t.isMainMemory addr

inductive TrackerCall where
  | claim (addr : Nat) (pid : PID)
  | release (addr : Nat) (pid : PID)
  | move (addr : Nat) (dest existing : PID)
  | alloc (pid : PID) (vaddr : Option Nat)
  | touch (paddr : Nat)
  | terminate (pid : PID) (pageIsLent : Nat → Bool)
  | register (handler state : Nat)

namespace TrackerCall

def exec : TrackerCall → TM Unit
  | claim addr pid => claimReleaseMove addr pid .claim
  | release addr pid => claimReleaseMove addr pid .release
  | move addr dest existing => claimReleaseMove addr dest (.move existing)
  | alloc pid vaddr => do let _ ← allocPageOomable pid vaddr
  | touch paddr => Swap.touch paddr
  | terminate pid pageIsLent => do
    releaseAllMemoryForProcess pid pageIsLent
    modify fun t => { t with processes := t.processes.filter (· ≠ pid) }
  | register handler state => registerHandler handler state

/-- Pages go to processes only, and the kernel does not end. -/
def Allowed (t : Tracker) : TrackerCall → Prop
  | claim _ pid => pid ∈ t.processes
  | move _ dest _ => dest ∈ t.processes
  | alloc pid _ => pid ∈ t.processes
  | terminate pid _ => pid ≠ pid1
  | _ => True

/-- The step from one tracker to the next by a call, with or without an error. -/
def Step (t : Tracker) (call : TrackerCall) (t' : Tracker) : Prop :=
  call.Allowed t ∧ (call.exec t = .ok () t' ∨ ∃ e, call.exec t = .err e t')

/-- The call does not move a page that has an owner, and does not release one that has none. -/
def exact (t : Tracker) : TrackerCall → Bool
  | move addr dest existing =>
    !t.tracks addr || (t.ownerOf addr).isNone || t.foreign addr dest (.move existing)
  | release addr _ => !t.tracks addr || (t.ownerOf addr).isSome || decide (t.usedPages = 0)
  | _ => true

variable {t t' : Tracker}

theorem of_post {m : TM Unit} {Q : Tracker → Prop} (h : Leaves m Q t)
    (hrun : m t = .ok () t' ∨ ∃ e, m t = .err e t') : Q t' := by
  rcases hrun with hrun | ⟨e, hrun⟩
  · exact h.ok hrun
  · exact h.err hrun

/-- A claim, release or move keeps the count just when the operation it comes to is counted. -/
theorem action_counts {addr : Nat} {pid : PID} {action : ClaimReleaseMove} (hlive : t.Live)
    (ht : t.Counts) (hpid : action = .release ∨ pid ∈ t.processes)
    (hrun : claimReleaseMove addr pid action t = .ok () t' ∨ ∃ e, claimReleaseMove addr pid action t = .err e t') :
    t'.Live ∧ (t'.Counts ↔ ∀ op ∈ actionOp t addr pid action, op.counted t = true) := by
  have heffect := of_post ((claimReleaseMove_effect t addr pid action).mono (fun _ _ h => h.1) fun _ _ h => h.1) hrun
  refine ⟨heffect.live hlive ?_, heffect.counts hlive ht⟩
  intro op hop p hp
  unfold actionOp at hop
  split at hop
  · simp at hop
  · cases action with
    | claim =>
      dsimp only at hop
      split at hop
      · obtain rfl := Option.some.inj hop
        obtain rfl : pid = p := by simpa [entry, SwapAlloc.assign] using hp
        simpa using hpid
      · simp at hop
    | move existing =>
      obtain rfl := Option.some.inj hop
      obtain rfl : pid = p := by simpa [entry, SwapAlloc.assign] using hp
      simpa using hpid
    | release =>
      obtain rfl := Option.some.inj hop
      simp [entry, SwapAlloc.assign] at hp

theorem counts_of_kept {call : TrackerCall} (h : Leaves (exec call) (fun t' => t'.Live ∧ t'.Counts) t) (hexact : call.exact t = true)
    (hrun : call.exec t = .ok () t' ∨ ∃ e, call.exec t = .err e t') :
    t'.Live ∧ (t'.Counts ↔ call.exact t = true) :=
  (of_post h hrun).imp_right fun hcounts => iff_of_true hcounts hexact

theorem step_counts {call : TrackerCall} (hlive : t.Live) (ht : t.Counts) (hstep : Step t call t') :
    t'.Live ∧ (t'.Counts ↔ call.exact t = true) := by
  obtain ⟨hallowed, hrun⟩ := hstep
  cases call with
  | claim addr pid =>
    obtain ⟨hlive', hcounts⟩ := action_counts hlive ht (Or.inr hallowed) hrun
    refine ⟨hlive', hcounts.trans ?_⟩
    unfold actionOp
    by_cases hmiss : addr % pageSize ≠ 0 ∨ t.isMainMemory addr = false ∨ t.foreign addr pid .claim
    · simp [if_pos hmiss, exact]
    · rw [if_neg hmiss]
      by_cases hfree : (t.ownerOf addr).isNone
      · have hnone : t.owner (t.offset addr) = none := Option.isNone_iff_eq_none.mp hfree
        simp [hfree, counted, exact, hnone]
      · simp [hfree, exact]
  | release addr pid =>
    obtain ⟨hlive', hcounts⟩ := action_counts hlive ht (Or.inl rfl) hrun
    refine ⟨hlive', hcounts.trans ?_⟩
    unfold actionOp
    by_cases hmiss : addr % pageSize ≠ 0 ∨ t.isMainMemory addr = false ∨ t.foreign addr pid .release
    · rw [if_pos hmiss]
      rcases hmiss with h | h | h
      · simp [exact, tracks, h]
      · simp [exact, tracks, h]
      · cases howner : t.ownerOf addr with
        | none => simp [foreign, howner] at h
        | some p => simp [exact, howner]
    · rw [if_neg hmiss]
      have htracks : t.tracks addr = true := by simp_all [tracks]
      simp [exact, htracks, counted, owner, ownerOf]
  | move addr dest existing =>
    obtain ⟨hlive', hcounts⟩ := action_counts hlive ht (Or.inr hallowed) hrun
    refine ⟨hlive', hcounts.trans ?_⟩
    unfold actionOp
    by_cases hmiss : addr % pageSize ≠ 0 ∨ t.isMainMemory addr = false ∨ t.foreign addr dest (.move existing)
    · rw [if_pos hmiss]
      rcases hmiss with h | h | h
      · simp [exact, tracks, h]
      · simp [exact, tracks, h]
      · simp [exact, h]
    · rw [if_neg hmiss]
      have htracks : t.tracks addr = true := by simp_all [tracks]
      have hown : t.foreign addr dest (.move existing) = false := by simp_all
      simp [exact, htracks, hown, counted, owner, ownerOf]
  | alloc pid vaddr =>
    refine counts_of_kept ?_ rfl hrun
    rw [Leaves, exec, post_bind]
    apply (allocPageOomable_effect t pid vaddr).never.imp
    rintro _ t1 ⟨i, -, hfree, heffect⟩
    refine ⟨heffect.live hlive ?_, (heffect.counts hlive ht).mpr ?_⟩
    · rintro op hop p hp
      obtain rfl := Option.some.inj hop
      obtain rfl : pid = p := by cases vaddr <;> simpa [entry, SwapAlloc.assign] using hp
      exact hallowed
    · simpa [counted] using hfree
  | touch paddr =>
    have heffect := of_post (touch_effect t paddr).never hrun
    by_cases hmain : t.isMainMemory paddr
    · rw [if_pos hmain] at heffect
      refine ⟨heffect.live hlive ?_, (heffect.counts hlive ht).trans ?_⟩
      · rintro op hop p hp
        obtain rfl := Option.some.inj hop
        exact hlive.owners _ heffect.1 p hp
      · simp [counted, exact]
    · rw [if_neg hmain] at heffect
      exact ⟨heffect.live hlive (by simp), by simpa [exact] using heffect.counts hlive ht⟩
  | terminate pid pageIsLent =>
    refine counts_of_kept ?_ rfl hrun
    rw [Leaves, exec, post_bind]
    apply (releaseAllMemoryForProcess_post pageIsLent hlive ht hallowed).never.imp
    intro _ t1 h1
    rw [post_modify]
    refine ⟨⟨h1.live.ramSize, h1.live.nodup.filter _, ?_, ?_⟩, h1.counts⟩
    · simpa [h1.live.kernel] using Ne.symm hallowed
    · intro i hi p hp
      have hcount : t1.pageCount = t.pageCount := congrArg (· / pageSize) h1.ramSize
      have hne : p ≠ pid := by
        rintro rfl
        exact h1.gone i (List.mem_range.mpr (hcount ▸ hi)) hp
      simpa [hne] using h1.live.owners i hi p hp
  | register handler state => exact counts_of_kept (registerHandler_counts handler state hlive) rfl hrun

def ExactStep (t : Tracker) (call : TrackerCall) (t' : Tracker) : Prop :=
  call.exact t = true ∧ Step t call t'

end TrackerCall

theorem getFreeMem_add (ht : t.Live) (hcounts : t.Counts) : t.getFreeMem.1 + t.usedPages = t.pageCount := by
  have hle := t.ownedPages_le
  have hcount := ht.pageCount_le
  rw [Tracker.Counts] at hcounts
  simp only [getFreeMem, wsub]
  omega

open TrackerCall in
/-- From the registration on, calls that move no owned page and release no free one keep the count
equal to the number of owned pages, and the free pages add up; any other call makes the count wrong.
-/
theorem used_pages_are_the_owned_pages (t start : Tracker) (handler state : Nat) (ht : t.Live)
    (hregister : Step t (.register handler state) start) (calls : List TrackerCall) (s : Tracker)
    (run : Run ExactStep start calls s) :
    s.usedPages = s.ownedPages ∧ s.getFreeMem.1 + s.usedPages = s.pageCount ∧
      ∀ call s', Step s call s' → (s'.usedPages = s'.ownedPages ↔ call.exact s = true) := by
  have hstart : start.Live ∧ start.Counts :=
    of_post (registerHandler_counts handler state ht) hregister.2
  have hs : s.Live ∧ s.Counts := by
    apply run.invariant (I := fun s => s.Live ∧ s.Counts) hstart
    rintro s call s' ⟨hlive, hcounts⟩ ⟨hexact, hstep⟩
    obtain ⟨hlive', hiff⟩ := step_counts hlive hcounts hstep
    exact ⟨hlive', hiff.mpr hexact⟩
  exact ⟨hs.2, getFreeMem_add hs.1 hs.2, fun call s' hstep => (step_counts hs.1 hs.2 hstep).2⟩

def pid4 : PID := ⟨4, by decide, by decide⟩

/-- A memory of one page, which belongs to process 3. -/
def onePage : Tracker where
  ramStart := 0x61000000
  ramSize := 0x1000
  lastRamPage := 0
  allocations := fun _ => { pid := some pid3, vaddr := 0x20000000 }
  epoch := 0
  usedPages := 0
  pc := 0
  swapperState := 0
  processes := [pid1, pid3, pid4]

theorem onePage_live : onePage.Live := by
  refine ⟨by decide, by decide, by decide, ?_⟩
  rintro i - p hp
  obtain rfl := Option.some.inj hp
  decide

def onePageRegistered : Tracker := { onePage with usedPages := 1, pc := 1, swapperState := 1 }

open TrackerCall in
theorem onePage_register : Step onePage (.register 1 1) onePageRegistered := ⟨trivial, Or.inl rfl⟩

open TrackerCall in
/-- A page that moves from process 3 to process 4 is counted twice, and the number of free pages
falls below zero. -/
theorem moved_page_is_counted_twice :
    ∃ s, onePage.Live ∧ Step onePage (.register 1 1) onePageRegistered ∧
      Step onePageRegistered (.move 0x61000000 pid4 pid3) s ∧ s.ownedPages = 1 ∧
      s.usedPages = 2 ∧ s.getFreeMem.1 = 2 ^ 32 - 1 := by
  have hallowed : pid4 ∈ onePageRegistered.processes := by decide
  refine ⟨_, onePage_live, onePage_register, ⟨hallowed, Or.inl rfl⟩, ?_, ?_, ?_⟩ <;> decide +kernel

open TrackerCall in
theorem page_changes_hands_by_release :
    ∃ s, Run ExactStep onePageRegistered [.release 0x61000000 pid3, .move 0x61000000 pid4 pid3,
        .release 0x61000000 pid4, .claim 0x61000000 pid3] s ∧ s.usedPages = s.ownedPages := by
  have hallowed : pid4 ∈ onePage.processes ∧ pid3 ∈ onePage.processes := by decide
  refine Exists.imp (fun s hrun => ⟨hrun, (used_pages_are_the_owned_pages onePage onePageRegistered 1 1
    onePage_live onePage_register _ s hrun).1⟩) ⟨_, .cons ⟨rfl, trivial, Or.inl rfl⟩
    (.cons ⟨rfl, hallowed.1, Or.inl rfl⟩ (.cons ⟨rfl, trivial, Or.inl rfl⟩
    (.cons ⟨rfl, hallowed.2, Or.inl rfl⟩ .nil)))⟩

end BaochipXous.Kernel.Swap
