import BaochipXous.KernelPageRights

/-!
Pages that are mapped at one place only: at its place the process of a watched page has, or may
have, the only VALID entry for it. Peripheral pages keep theirs only while no process maps one
twice; the test that is to prevent this asks the index of the page, not its address, and never fires.
-/

namespace BaochipXous.Kernel

open Prog Function Machine Allowance

/-- Which physical pages are watched, which entries count as a mapping of them, and what entries
have to satisfy besides. -/
structure Watch where
  layout : Layout
  pages : Nat → Bool
  low : Nat → Bool
  extra : PID → Nat → PTE → Prop

/-- The place of each page and its owner; a page that nobody owns has no place. -/
structure Places where
  place : Nat → Option (PID × Nat)
  own : Nat → Option PID
  owned : ∀ phys, own phys = none → place phys = none

namespace Places

def remove (S : Places) (phys : Nat) : Places where
  place := update S.place phys none
  own := update S.own phys none
  owned := by
    intro page hpage
    by_cases hsame : page = phys
    · rw [hsame, update_self]
    · rw [update_of_ne hsame] at hpage ⊢
      exact S.owned page hpage

/-- The watched pages of a range get their places in the range at `virt`. -/
def putRange (S : Places) (watched : Nat → Bool) (pid : PID) (phys virt size : Nat) : Places where
  place page :=
    if watched page ∧ phys ≤ page ∧ page < phys + size then
      some (pid, vpn (wadd (page - phys) virt))
    else S.place page
  own page := if watched page ∧ phys ≤ page ∧ page < phys + size then some pid else S.own page
  owned := by
    intro page hpage
    split at hpage
    · contradiction
    · rename_i hout
      rw [if_neg hout]
      exact S.owned page hpage

variable (S : Places)

@[simp] theorem remove_place_self (phys : Nat) : (S.remove phys).place phys = none := update_self ..

@[simp] theorem remove_own_self (phys : Nat) : (S.remove phys).own phys = none := update_self ..

variable {phys : Nat}

theorem remove_place_of_ne {page : Nat} (h : page ≠ phys) :
    (S.remove phys).place page = S.place page := update_of_ne h ..

theorem remove_own_of_ne {page : Nat} (h : page ≠ phys) :
    (S.remove phys).own page = S.own page := update_of_ne h ..

section PutRange

variable (S : Places) {watched : Nat → Bool} (pid : PID) {phys virt size page : Nat}

theorem putRange_place (h : watched page = true ∧ phys ≤ page ∧ page < phys + size) :
    (S.putRange watched pid phys virt size).place page = some (pid, vpn (wadd (page - phys) virt)) := if_pos h

theorem putRange_own (h : watched page = true ∧ phys ≤ page ∧ page < phys + size) :
    (S.putRange watched pid phys virt size).own page = some pid := if_pos h

theorem putRange_place_of_not (h : ¬(watched page = true ∧ phys ≤ page ∧ page < phys + size)) :
    (S.putRange watched pid phys virt size).place page = S.place page := if_neg h

theorem putRange_own_of_not (h : ¬(watched page = true ∧ phys ≤ page ∧ page < phys + size)) :
    (S.putRange watched pid phys virt size).own page = S.own page := if_neg h

end PutRange

/-- Only pages without an owner have changed, and those have one place of their owner at most. -/
def Extends (S S' : Places) : Prop :=
  ∀ phys, phys % pageSize = 0 → (S'.place phys = S.place phys ∧ S'.own phys = S.own phys) ∨
    (S.own phys = none ∧ S'.own phys = (S'.place phys).map Prod.fst)

theorem Extends.refl : S.Extends S := fun _ _ => .inl ⟨rfl, rfl⟩

theorem Extends.putRange {S : Places} {watched : Nat → Bool} {pid : PID} {size : Nat} (virt : Nat)
    (hfree : ∀ page, page % pageSize = 0 → watched page = true → phys ≤ page →
      page < phys + size → S.own page = none) : S.Extends (S.putRange watched pid phys virt size) := by
  intro page haligned
  by_cases hin : watched page = true ∧ phys ≤ page ∧ page < phys + size
  · refine .inr ⟨hfree page haligned hin.1 hin.2.1 hin.2.2, ?_⟩
    rw [putRange_own S pid hin, putRange_place S pid hin]
    rfl
  · exact .inl ⟨putRange_place_of_not S pid hin, putRange_own_of_not S pid hin⟩

theorem Extends.remove {S S' : Places} (h : S.Extends S') (hfree : S.own phys = none) : S.Extends (S'.remove phys) := by
  intro page haligned
  by_cases hsame : page = phys
  · subst hsame
    refine .inr ⟨hfree, ?_⟩
    simp
  · rw [remove_place_of_ne S' hsame, remove_own_of_ne S' hsame]
    exact h page haligned

end Places

namespace Watch

variable (W : Watch)

/-- A watched page has VALID entries at its place only, and belongs to its owner. -/
def allowance (S : Places) : Allowance where
  layout := W.layout
  entry q v e := (W.low v = true → e.valid = true → W.pages e.phys = true →
    S.place e.phys = some (q, v)) ∧ W.extra q v e
  owner phys := if W.pages phys then S.own phys else none

/-- The pages obey places that are reached. -/
abbrev Reaches (pid : PID) (reached : Places → Prop) (m : Machine) : Prop :=
  ∃ S', reached S' ∧ (W.allowance S').Obeyed pid m

/-- The place is free for every entry that is not marked as lent. -/
def Open (space : PID) (v : Nat) : Prop := ∀ e : PTE, e.s = false → W.extra space v e

/-- Leaf tables do not count as mappings, and what the user may do with a page makes no
difference. -/
structure Lawful : Prop where
  sound : W.layout.Sound
  tables : ∀ q virt phys, userAreaEnd ≤ virt → virt < 2 ^ 32 → W.layout.isMain phys = true →
    (W.low (vpn virt) = true → W.pages phys = false) ∧ W.Open q (vpn virt)
  rights : ∀ q v (e e' : PTE), e'.ppn = e.ppn → e'.valid = e.valid → e'.s = e.s →
    W.extra q v e → W.extra q v e'

variable {W} {S : Places} {pid : PID} {m : Machine}

theorem entry_invalid {q : PID} {v : Nat} {e : PTE} (hopen : W.Open q v) (hvalid : e.valid = false)
    (hs : e.s = false) : (W.allowance S).entry q v e := by
  refine ⟨fun _ hv => ?_, hopen e hs⟩
  rw [hvalid] at hv
  contradiction

theorem Lawful.entry_rights (hW : W.Lawful) {q : PID} {v : Nat} {e e' : PTE} (hppn : e'.ppn = e.ppn)
    (hvalid : e'.valid = e.valid) (hs : e'.s = e.s) (he : (W.allowance S).entry q v e) :
    (W.allowance S).entry q v e' := by
  have hphys : e'.phys = e.phys := by rw [PTE.phys, PTE.phys, hppn]
  refine ⟨fun hlow hv hwatched => ?_, hW.rights q v e e' hppn hvalid hs he.2⟩
  rw [hphys] at hwatched ⊢
  exact he.1 hlow (hvalid ▸ hv) hwatched

theorem reservable {addrs : List Nat} (hopen : ∀ addr ∈ addrs, W.Open pid (vpn addr)) :
    (W.allowance S).Reservable pid addrs :=
  fun addr haddr _ hvalid hs => entry_invalid (hopen addr haddr) hvalid hs

variable {phys : Nat}

theorem owner_none (h : W.pages phys = true → S.own phys = none) : (W.allowance S).owner phys = none := by
  simp only [allowance]
  split
  · rename_i hphys
    exact h hphys
  · rfl

theorem own_eq_none (hm : (W.allowance S).Obeyed pid m) (haligned : phys % pageSize = 0) (hphys : W.pages phys = true)
    (hholder : m.mem.holder phys = none) : S.own phys = none := by
  by_contra hsome
  obtain ⟨q, hq⟩ := Option.ne_none_iff_exists'.mp hsome
  have howner : (W.allowance S).owner phys = some q := (if_pos hphys).trans hq
  rw [hm.owners phys q haligned howner] at hholder
  contradiction

theorem obeyed_remove (hm : (W.allowance S).Obeyed pid m) {v : Nat}
    (hplace : W.pages phys = true → S.place phys = some (pid, v) ∨ S.place phys = none)
    (hgone : (m.mem.pt pid v).valid = false) : (W.allowance (S.remove phys)).Obeyed pid m := by
  refine hm.mono rfl (fun q w hentry => ⟨fun hlow hvalid hwatched => ?_, hentry.2⟩)
    fun phys' q haligned howner => hm.owners phys' q haligned ?_
  · have hat := hentry.1 hlow hvalid hwatched
    by_cases hsame : (m.mem.pt q w).phys = phys
    · rw [hsame] at hat hwatched
      rcases hplace hwatched with hp | hp
      · rw [hat, Option.some.injEq, Prod.mk.injEq] at hp
        obtain ⟨rfl, rfl⟩ := hp
        rw [hgone] at hvalid
        contradiction
      · rw [hat] at hp
        contradiction
    · rwa [S.remove_place_of_ne hsame]
  · by_cases hsame : phys' = phys
    · simp [allowance, hsame] at howner
    · simpa [allowance, S.remove_own_of_ne hsame] using howner

variable {size : Nat}

theorem obeyed_putRange (virt : Nat) (hm : (W.allowance S).Obeyed pid m) (haligned : phys % pageSize = 0)
    (hclaimed : ∀ page ∈ Kernel.pages phys (phys + size), W.pages page = true →
      S.own page = none ∧ m.mem.holder page = some pid) :
    (W.allowance (S.putRange W.pages pid phys virt size)).Obeyed pid m := by
  refine hm.mono rfl (fun q v hentry => ⟨fun hlow hvalid hwatched => ?_, hentry.2⟩) fun page q hpage howner => ?_
  · have hat := hentry.1 hlow hvalid hwatched
    have hout : ¬(W.pages (m.mem.pt q v).phys = true ∧ phys ≤ (m.mem.pt q v).phys ∧
        (m.mem.pt q v).phys < phys + size) := by
      intro hin
      have hpage := (mem_pages_aligned haligned).mpr ⟨hin.2.1, hin.2.2, PTE.phys_aligned _⟩
      rw [S.owned _ (hclaimed _ hpage hwatched).1] at hat
      contradiction
    rwa [S.putRange_place_of_not pid hout]
  · by_cases hin : W.pages page = true ∧ phys ≤ page ∧ page < phys + size
    · obtain rfl : pid = q := by simpa [allowance, hin.1, S.putRange_own pid hin] using howner
      exact (hclaimed page ((mem_pages_aligned haligned).mpr ⟨hin.2.1, hin.2.2, hpage⟩) hin.1).2
    · refine hm.owners page q hpage ?_
      simpa [allowance, S.putRange_own_of_not pid hin] using howner

theorem Reaches.keeps {α : Type} {prog : MM α} {reached : Places → Prop}
    (h : ∀ S, Keeps ((W.allowance S).Obeyed pid) prog) : Keeps (W.Reaches pid reached) prog := by
  rintro m ⟨S, hS, hm⟩
  exact (h S m hm).both fun _ hm' => ⟨S, hS, hm'⟩

theorem mapPageInner_aligned (phys virt : Nat) (flags : MemoryFlags) (user : Bool) (m : Machine) :
    Leaves (mapPageInner pid phys virt flags user) (fun _ => virt % pageSize = 0) m := by
  rw [Leaves, mapPageInner, mapPageWith, post_bind, post_assert]
  intro haligned
  have haligned := of_decide_eq_true haligned
  exact Post.of_forall (fun _ _ => haligned) fun _ _ => haligned

/-- The pages of a range have their places in the range at `virt`, where nothing is lent. -/
def PlacedAt (W : Watch) (S : Places) (pid : PID) (phys virt size : Nat) : Prop :=
  ∀ offset ∈ Kernel.pages 0 size, wadd offset phys % pageSize = 0 ∧
    W.Open pid (vpn (wadd offset virt)) ∧
    (W.pages (wadd offset phys) = true →
      S.place (wadd offset phys) = some (pid, vpn (wadd offset virt)))

variable {virt : Nat}

theorem contiguousRun_le (m : Memory) (pagesToClaim : Nat) {n a : Nat} {rangeStart : Option Nat}
    {currentRun start run : Nat} (hrange : ∀ s, rangeStart = some s → s + currentRun = a)
    (h : contiguousRun m pagesToClaim (List.range' a n) rangeStart currentRun = (some start, run)) :
    start + run ≤ a + n := by
  induction n generalizing a rangeStart currentRun with
  | zero =>
    simp only [List.range'_zero, contiguousRun, Prod.mk.injEq] at h
    obtain ⟨rfl, rfl⟩ := h
    exact (hrange start rfl).le
  | succ n ih =>
    have hstep : ∀ next : Option Nat × Nat, (∀ s, next.1 = some s → s + next.2 = a + 1) →
        (if pagesToClaim ≤ next.2 then next else contiguousRun m pagesToClaim (List.range' (a + 1) n) next.1 next.2) =
            (some start, run) → start + run ≤ a + (n + 1) := by
      intro next hnext hrun
      split at hrun
      · subst hrun
        have := hnext start rfl
        omega
      · have := ih hnext hrun
        omega
    rw [List.range'_succ] at h
    unfold contiguousRun at h
    refine hstep _ (fun s => ?_) h
    -- the run goes on with this page, starts with it, or ends before it
    split
    · split
      · rename_i first
        have hfirst := hrange first rfl
        intro hs
        injection hs
        omega
      · intro hs
        injection hs
        omega
    · nofun

theorem contiguousPages_le {m : Memory} (hsize : size % pageSize = 0) (h : m.contiguousPages size = some phys) :
    m.ramStart ≤ phys ∧ phys + size ≤ m.ramStart + m.ramSize := by
  unfold Memory.contiguousPages at h
  simp only at h
  split at h
  · rename_i start run hrun
    split at h
    · rename_i hlong
      rw [List.range_eq_range'] at hrun
      have hle := contiguousRun_le m _ (by simp) hrun
      injection h with h
      simp only [pageSize] at *
      omega
    · contradiction
  · contradiction

/-- The addresses that a request for memory may be served with. -/
structure OpenAt (W : Watch) (pid : PID) (virt size : Nat) : Prop where
  offsets : ∀ offset ∈ Kernel.pages 0 size, W.Open pid (vpn (wadd offset virt))
  pages : ∀ addr ∈ Kernel.pages virt (wadd virt size), W.Open pid (vpn addr)
  touched : ∀ addr ∈ Kernel.pages (virt - virt % pageSize) (virt + size), W.Open pid (vpn addr)
  found : virt = 0 → ∀ v, W.Open pid v

variable (hW : W.Lawful)

include hW

theorem tables (S : Places) : (W.allowance S).Tables := by
  intro q virt phys hlo hhi haligned hmain
  obtain ⟨hunwatched, hopen⟩ := hW.tables q virt phys hlo hhi hmain
  refine ⟨fun hlow _ hwatched => ?_, hopen _ rfl⟩
  have hlt : phys < 2 ^ 32 := by
    have hfits := hW.sound.fits
    have hmain : W.layout.isMain phys = true := hmain
    rw [Layout.isMain, decide_eq_true_eq] at hmain
    omega
  rw [mappedEntry_phys haligned hlt, hunwatched hlow] at hwatched
  contradiction

theorem handPageToUser_keeps (virt : Nat) : Keeps ((W.allowance S).Obeyed pid) (handPageToUser virt) :=
  Allowance.handPageToUser_keeps fun e he _ => hW.entry_rights (e := e) rfl rfl rfl he

/-- A page from `lo` to `hi` that is watched has not been claimed by the process. -/
abbrev Fresh (W : Watch) (m : Machine) (pid : PID) (lo hi : Nat) : Prop :=
  ∀ page ∈ Kernel.pages lo hi, W.pages page = true → W.layout.isMain page = true ∨ m.mem.holder page ≠ some pid

section

variable (hm : (W.allowance S).Obeyed pid m)

include hm

/-- After a range is claimed its watched pages belong to the process, and had no owner before. -/
theorem claimRange_post (hfresh : W.Fresh m pid phys (wadd phys size)) : Post (claimRange phys size pid)
      (fun _ m' => (W.allowance S).Obeyed pid m' ∧ ∀ page ∈ Kernel.pages phys (wadd phys size), page % pageSize = 0 ∧
          (W.pages page = true → S.own page = none ∧ m'.mem.holder page = some pid))
      (fun _ m' => (W.allowance S).Obeyed pid m') m := by
  let I : List Nat → Machine → Prop := fun front m' =>
    (W.allowance S).Obeyed pid m' ∧ (∀ page ∈ front, page % pageSize = 0 ∧
        (W.pages page = true → S.own page = none ∧ m'.mem.holder page = some pid)) ∧
      ∀ page, page % pageSize = 0 → page ∉ front → m'.mem.holder page = m.mem.holder page
  refine (post_forEach_done (I := I) (Kernel.pages phys (wadd phys size)) [] ?_
    ⟨hm, by simp, fun _ _ _ => rfl⟩).imp fun _ m' h => ⟨h.1, h.2.1⟩
  rintro front page rest m1 hpages ⟨hm1, hfront, hothers⟩
  rw [List.nil_append] at hpages
  have hpage : page ∈ Kernel.pages phys (wadd phys size) := by
    rw [hpages]
    simp
  have hnew : page ∉ front := by
    have hnodup := nodup_pages phys (wadd phys size)
    rw [hpages] at hnodup
    exact fun hmem => (List.nodup_append.mp hnodup).2.2 page hmem page List.mem_cons_self rfl
  rw [post_bind, post_attempt]
  refine (claimReleaseMove_spec page pid .claim m1).mono ?_ ?_
  · rintro _ m2 ⟨haligned, slot, owner, hslot, hclaim, rfl⟩
    obtain ⟨rfl, hbefore⟩ := ClaimReleaseMove.newOwner_claim hclaim
    have hholder : m1.mem.holder page = m1.mem.owner slot := by
      rw [Memory.holder, hslot, Option.bind_some]
    have hown : W.pages page = true → S.own page = none := by
      intro hwatched
      refine own_eq_none hm1 haligned hwatched ?_
      rw [hholder]
      refine hbefore.resolve_right ?_
      rintro ⟨hown, halias⟩
      rcases hfresh page hpage hwatched with hmain | hother
      · rw [← show m1.mem.layout = W.layout from hm1.layout] at hmain
        rw [Layout.slot, if_pos hmain] at hslot
        injection hslot with hslot
        rw [← hslot] at halias
        contradiction
      · rw [← hholder, hothers page haligned hnew] at hown
        exact hother hown
    have hset : ∀ other, other % pageSize = 0 → (m1.setOwner slot (some pid)).mem.holder other =
        if other = page then some pid else m1.mem.holder other := fun other hother =>
      setOwner_holder (hm1.layout ▸ hW.sound) haligned hother hslot (some pid)
    refine ⟨hm1.setOwner hW.sound haligned hslot _ fun q hq => ?_, fun other hother => ?_,
      fun other haligned' hother => ?_⟩
    · rw [owner_none hown] at hq
      contradiction
    · rcases List.mem_append.mp hother with hother | hother
      · obtain ⟨halign, hclaimed⟩ := hfront other hother
        refine ⟨halign, fun hwatched => ⟨(hclaimed hwatched).1, ?_⟩⟩
        have hne : other ≠ page := ne_of_mem_of_not_mem hother hnew
        rw [hset other halign, if_neg hne]
        exact (hclaimed hwatched).2
      · obtain rfl := List.mem_singleton.mp hother
        exact ⟨haligned, fun hwatched => ⟨hown hwatched, by rw [hset _ haligned, if_pos rfl]⟩⟩
    · rw [List.mem_append, List.mem_singleton, not_or] at hother
      rw [hset other haligned', if_neg hother.2]
      exact hothers other haligned' hother.1
  · rintro error m2 rfl
    refine Keeps.then_fail (.forEach_mem _ fun released hreleased => ?_) hm1
    have hclaimed := mem_front_of_mem_pages hpages hreleased
    have hnone := owner_none fun h => ((hfront released hclaimed).2 h).1
    exact .bind (.attempt (claimReleaseMove_keeps hW.sound hnone pid .release)) fun _ => .pure _

theorem undoPage_post (hvirt : virt % pageSize = 0) (hopen : W.Open pid (vpn virt))
    (hplace : W.pages phys = true → S.place phys = some (pid, vpn virt) ∨ S.place phys = none) :
    Post (do
        let _ ← attempt (unmapPageInner virt)
        let _ ← attempt (releasePage phys pid)
        pure ())
      (fun _ m' => (W.allowance (S.remove phys)).Obeyed pid m') (fun _ _ => False) m := by
  rw [post_bind, post_attempt]
  have hunmapped : Leaves (unmapPageInner virt)
      (fun m' => (W.allowance S).Obeyed pid m' ∧ (m'.mem.pt pid (vpn virt)).valid = false) m := by
    refine (unmapPageInner_post hvirt m).mono ?_ ?_
    · rintro _ m' ⟨hroot, rfl⟩
      refine ⟨hm.setEntry hroot (entry_invalid hopen rfl rfl), ?_⟩
      rw [← hm.space, setEntry_same]
      rfl
    · rintro _ m' ⟨hroot, rfl⟩
      refine ⟨hm, ?_⟩
      rw [hm.rooted pid (vpn virt) (by rw [← hm.space]; exact hroot)]
      rfl
  have hreleased : ∀ m', (W.allowance S).Obeyed pid m' ∧ (m'.mem.pt pid (vpn virt)).valid = false → Post (do
          let _ ← attempt (releasePage phys pid)
          pure ())
        (fun _ => (W.allowance (S.remove phys)).Obeyed pid) (fun _ _ => False) m' := by
    rintro m' ⟨hm', hgone⟩
    have hnone : (W.allowance (S.remove phys)).owner phys = none :=
      owner_none fun _ => S.remove_own_self phys
    rw [post_bind, post_attempt]
    exact claimReleaseMove_keeps hW.sound hnone pid .release m' (obeyed_remove hm' hplace hgone)
  exact hunmapped.mono (fun _ => hreleased) fun _ => hreleased

/-- A range is mapped at the places of its pages, or else the pages mapped so far are given up. -/
theorem mapPages_post {base : Places} (flags : MemoryFlags) (hext : base.Extends S)
    (hplaced : PlacedAt W S pid phys virt size)
    (hfresh : ∀ offset ∈ Kernel.pages 0 size, W.pages (wadd offset phys) = true →
      base.own (wadd offset phys) = none) : Post (mapPages phys virt size pid flags)
      (fun _ m' => (W.allowance S).Obeyed pid m') (fun _ => W.Reaches pid base.Extends) m := by
  refine post_forEach _ (fun offset hoffset m1 hm1 => ?_) hm
  rw [post_bind, post_attempt]
  have hentry : (W.allowance S).entry pid (vpn (wadd offset virt)) (mappedEntry (wadd offset phys) flags false) := by
    obtain ⟨haligned, hopen, hplace⟩ := hplaced offset hoffset
    refine ⟨fun _ _ hwatched => ?_, hopen _ rfl⟩
    rw [mappedEntry_phys haligned (wadd_lt offset phys)] at hwatched ⊢
    exact hplace hwatched
  refine ((mapPageInner_keeps hW.sound (tables hW S) pid hentry m1 hm1).and
    (mapPageInner_aligned (wadd offset phys) (wadd offset virt) flags false m1)).mono
    (fun _ _ h => h.1) ?_
  rintro error m2 ⟨hm2, haligned⟩
  -- while pages are given up, each has its place or none
  let givenUp : Places → Prop := fun S' => base.Extends S' ∧
    ∀ undo ∈ Kernel.pages 0 size, W.pages (wadd undo phys) = true →
      S'.place (wadd undo phys) = some (pid, vpn (wadd undo virt)) ∨ S'.place (wadd undo phys) = none
  have hundo : Keeps (W.Reaches pid givenUp) (forEach (Kernel.pages 0 offset) fun unmapOffset => do
      let _ ← attempt (unmapPageInner (wadd unmapOffset virt))
      let _ ← attempt (releasePage (wadd unmapOffset phys) pid)
      pure ()) := by
    refine .forEach_mem _ fun undo hundo => ?_
    have hmem := mem_pages_of_mem hoffset hundo
    have hvirt : wadd undo virt % pageSize = 0 := by
      have h1 := (mem_pages_zero hoffset).2
      have h2 := (mem_pages_zero hundo).2
      simp only [wadd, pageSize] at *
      omega
    by_cases hwatched : W.pages (wadd undo phys) = true
    · rintro m' ⟨S', ⟨hext', hplace'⟩, hm'⟩
      refine (undoPage_post hW hm' hvirt (hplaced undo hmem).2.1 (hplace' undo hmem)).never.imp ?_
      refine fun _ m'' hm'' => ⟨S'.remove (wadd undo phys),
        ⟨hext'.remove (hfresh undo hmem hwatched), fun other hother hw => ?_⟩, hm''⟩
      by_cases hsame : wadd other phys = wadd undo phys
      · rw [hsame]
        exact .inr (S'.remove_place_self _)
      · rw [S'.remove_place_of_ne hsame]
        exact hplace' other hother hw
    · exact .bind (.attempt (Reaches.keeps fun _ =>
        unmapPageInner_keeps (entry_invalid (hplaced undo hmem).2.1 rfl rfl))) fun _ =>
        .bind (.attempt (Reaches.keeps fun _ => claimReleaseMove_keeps hW.sound
          (owner_none fun h => absurd h hwatched) pid .release)) fun _ => .pure _
  refine (hundo.then_fail ⟨S, ⟨hext, fun undo hundo h => .inl ((hplaced undo hundo).2.2 h)⟩,
    hm2⟩).mono (fun _ _ h => h) ?_
  exact fun _ _ h => h.imp fun _ => And.imp_left And.left

theorem claimAndMap_post {α : Type} {rest : MM α} (flags : MemoryFlags) (hrest : Keeps (W.Reaches pid S.Extends) rest)
    (hpos : 0 < size) (hfits : phys + size < 2 ^ 32)
    (hopen : ∀ offset ∈ Kernel.pages 0 size, W.Open pid (vpn (wadd offset virt)))
    (hfresh : W.Fresh m pid phys (phys + size)) : Leaves (do
        claimRange phys size pid
        mapPages phys virt size pid flags
        rest)
      (W.Reaches pid S.Extends) m := by
  have hend : wadd phys size = phys + size := Nat.mod_eq_of_lt hfits
  rw [← hend] at hfresh
  rw [Leaves, post_bind]
  refine (claimRange_post hW hm hfresh).mono ?_ fun _ _ h => ⟨S, .refl S, h⟩
  rintro _ m1 ⟨hm1, hclaimed⟩
  rw [hend] at hclaimed
  have haligned : phys % pageSize = 0 := (hclaimed phys (mem_pages.mpr (by simp [hpos]))).1
  have hsum : ∀ offset ∈ Kernel.pages 0 size, wadd offset phys = offset + phys ∧
      (offset + phys) % pageSize = 0 ∧ offset < size := by
    intro offset hoffset
    obtain ⟨hlt, hoffset⟩ := mem_pages_zero hoffset
    refine ⟨Nat.mod_eq_of_lt (by omega), ?_, hlt⟩
    simp only [pageSize] at *
    omega
  have hplaced : PlacedAt W (S.putRange W.pages pid phys virt size) pid phys virt size := by
    intro offset hoffset
    obtain ⟨hwadd, haligned, hlt⟩ := hsum offset hoffset
    refine ⟨by rw [hwadd, haligned], hopen offset hoffset, fun hwatched => ?_⟩
    rw [hwadd] at hwatched ⊢
    rw [S.putRange_place pid ⟨hwatched, by omega, by omega⟩, Nat.add_sub_cancel]
  have hfree : ∀ page, page % pageSize = 0 → W.pages page = true → phys ≤ page →
      page < phys + size → S.own page = none := fun page hpage hwatched hlo hhi =>
    ((hclaimed page ((mem_pages_aligned haligned).mpr ⟨hlo, hhi, hpage⟩)).2 hwatched).1
  have hext : S.Extends (S.putRange W.pages pid phys virt size) := .putRange virt hfree
  refine (mapPages_post hW (obeyed_putRange virt hm1 haligned fun page hpage =>
    (hclaimed page hpage).2) flags hext hplaced fun offset hoffset hwatched => ?_).bind
    fun _ m' h => hrest m' ⟨_, hext, h⟩
  obtain ⟨hwadd, haligned, hlt⟩ := hsum offset hoffset
  rw [hwadd] at hwatched ⊢
  exact hfree _ haligned hwatched (by omega) (by omega)

theorem mapRange_post {physPtr virtPtr : Nat} (flags : MemoryFlags) (kind : MemoryType)
    (hsize : size % pageSize = 0) (hpos : 0 < size)
    (hopen : ∀ virt, m.Chooses virtPtr size kind virt → OpenAt W pid virt size)
    (hfresh : physPtr ≠ 0 → physPtr + size < 2 ^ 32 ∧ W.Fresh m pid physPtr (physPtr + size)) :
    Leaves (mapRange physPtr virtPtr size pid flags kind) (W.Reaches pid S.Extends) m := by
  have hsame : ∀ m', (W.allowance S).Obeyed pid m' → W.Reaches pid S.Extends m' := fun _ h => ⟨S, .refl S, h⟩
  unfold Leaves mapRange
  rw [post_bind]
  refine (findVirtualAddress_post virtPtr size kind m).mono ?_ fun _ _ h => hsame _ (h ▸ hm)
  rintro virt _ ⟨hchosen, arch, rfl⟩
  have hm1 := hm.withArch arch
  have hopen := hopen virt hchosen
  rw [post_ite]
  refine ⟨fun hvirtual => ?_, fun _ => ?_⟩
  · have hgiven : virt = virtPtr := by
      have hne : virtPtr ≠ 0 := by
        rintro rfl
        exact absurd hvirtual.2.2 (by decide)
      rwa [Machine.Chooses, if_pos hne] at hchosen
    rw [hgiven] at hopen
    exact (mapVirtual_keeps hW.sound (tables hW S) (reservable hopen.touched) _ hm1).both hsame
  rw [post_ite]
  refine ⟨fun _ => ?_, fun hclaim => ?_⟩
  · refine (reserveRange_post hW.sound (tables hW S) flags (fun virt' hvirt' =>
      reservable ?_) hm1).both hsame
    by_cases hzero : virt = 0
    · exact fun addr _ => hopen.found hzero _
    · rw [Machine.Chooses, if_pos hzero] at hvirt'
      rw [hvirt']
      exact hopen.pages
  have hafter : Keeps (W.Reaches pid S.Extends) (do
      when (flags.dev && decide (physPtr = 0)) do
        forEach (Kernel.pages 0 size) fun offset => unwrap (handPageToUser (wadd virt offset))
      ofExcept (MemoryRange.new virt size)) := Reaches.keeps fun _ =>
    .bind (.when _ (.forEach _ fun _ => .unwrap (handPageToUser_keeps hW _))) fun _ => .ofExcept _
  rw [post_bind, rangePhys, post_bind, post_gets, post_ite, post_ofOption, post_pure]
  refine ⟨fun _ => ⟨fun phys hphys => ?_, fun _ => hsame _ hm1⟩, fun hdevice => ?_⟩
  · have hlayout : m.mem.layout = W.layout := hm.layout
    have hfits := hW.sound.fits
    obtain ⟨hlo, hhi⟩ := contiguousPages_le hsize hphys
    rw [← hlayout] at hfits
    refine claimAndMap_post hW hm1 flags hafter hpos (lt_of_le_of_lt hhi hfits) hopen.offsets fun page hpage _ => .inl ?_
    have hpage := mem_pages.mp hpage
    rw [← hlayout, Layout.isMain, decide_eq_true_eq]
    exact ⟨hlo.trans hpage.1, hpage.2.1.trans_le hhi⟩
  · have hgiven : physPtr ≠ 0 := by
      intro hzero
      simp_all
    exact claimAndMap_post hW hm1 flags hafter hpos (hfresh hgiven).1 hopen.offsets (hfresh hgiven).2

theorem mapMemory_post (phys virt : Option MemoryAddress) (size : MemorySize) (flags : MemoryFlags)
    (hopen : ∀ addr, (pid.get = 1 ∨ ∀ x, virt = some x → x.get + size.get < userAreaEnd) →
      m.Chooses (NonZero.orZero virt) size.get .default addr → OpenAt W pid addr size.get)
    (hfresh : ∀ base, phys = some base → base.get + size.get < 2 ^ 32 ∧ W.Fresh m pid base.get (base.get + size.get)) :
    Leaves (mapMemory pid phys virt size flags) (W.Reaches pid S.Extends) m := by
  have hsame : W.Reaches pid S.Extends m := ⟨S, .refl S, hm⟩
  unfold Leaves mapMemory
  rw [post_ite]
  refine ⟨fun _ => hsame, fun huser => ?_⟩
  rw [post_ite]
  refine ⟨fun _ => hsame, fun hsize => ?_⟩
  have huser : pid.get = 1 ∨ ∀ x, virt = some x → x.get + size.get < userAreaEnd := by
    by_cases hkernel : pid.get = 1
    · exact .inl hkernel
    · refine .inr fun x hx => ?_
      subst hx
      simpa [hkernel] using huser
  have hclaims : NonZero.orZero phys ≠ 0 → NonZero.orZero phys + size.get < 2 ^ 32 ∧
      W.Fresh m pid (NonZero.orZero phys) (NonZero.orZero phys + size.get) := by
    intro hgiven
    cases phys with
    | none => exact absurd rfl hgiven
    | some base => exact hfresh base rfl
  refine (mapRange_post hW hm flags .default (not_not.mp hsize) size.pos (fun addr => hopen addr huser) hclaims).bind ?_
  exact fun range => Reaches.keeps fun _ => .bind (.when _ (.forEach _ fun addr =>
    .unwrap (handPageToUser_keeps hW addr))) fun _ => .pure range

/-- What unmapping an address does to the places: the page that has its place there may lose it,
if it belongs to the process. -/
def Unmaps (pid : PID) (virt : Nat) (S S' : Places) : Prop :=
  S' = S ∨ ∃ phys, S.place phys = some (pid, vpn virt) ∧ S.own phys = some pid ∧ S' = S.remove phys

theorem unmapPage_post (hvirt : virt % pageSize = 0) (hlow : W.low (vpn virt) = true)
    (hopen : W.Open pid (vpn virt)) (hcurrent : m.current = pid) :
    Leaves (unmapPage virt) (W.Reaches pid (Unmaps pid virt S)) m := by
  have hcleared : ∀ m', (W.allowance S).Obeyed pid m' → Leaves (unmapPageInner virt)
      (W.Reaches pid (Unmaps pid virt S)) m' :=
    fun m' hm' => (unmapPageInner_keeps (entry_invalid hopen rfl rfl) m' hm').both fun _ h =>
      ⟨S, .inl rfl, h⟩
  unfold Leaves unmapPage
  rw [post_bind, post_gets, post_bind, post_gets, hcurrent]
  split
  · rename_i phys hphys
    obtain ⟨hroot, hvalid, -, rfl⟩ := virtToPhys_ok hphys
    rw [post_bind, post_attempt]
    by_cases hwatched : W.pages (m.entry virt).phys = true
    · have hplace := (hm.entry virt).1 hlow hvalid hwatched
      have hentry := hm.setEntry hroot (entry_invalid (S := S) hopen (e := .zero) rfl rfl)
      -- without its entry the page is mapped nowhere, so that it may be released
      have hgone : (W.allowance (S.remove (m.entry virt).phys)).Obeyed pid (m.setEntry virt .zero) := by
        refine obeyed_remove hentry (v := vpn virt) (fun _ => .inl hplace) ?_
        rw [← hm.space, setEntry_same]
        rfl
      refine (claimReleaseMove_spec (m.entry virt).phys pid .release m).mono ?_ ?_
      · rintro _ _ ⟨haligned, page, owner, hslot, hrelease, rfl⟩
        have hown : S.own (m.entry virt).phys = some pid := by
          obtain ⟨q, hq⟩ := Option.ne_none_iff_exists'.mp fun hnone =>
            absurd (S.owned _ hnone) (by rw [hplace]; nofun)
          have hholder := hm.owners _ q haligned ((if_pos hwatched).trans hq)
          rw [Memory.holder, hslot, Option.bind_some] at hholder
          rcases (ClaimReleaseMove.newOwner_release hrelease).2 with hnone | hpid
          · rw [hnone] at hholder
            contradiction
          · rw [hq, ← hholder, hpid]
        have hreleased := hgone.setOwner hW.sound haligned hslot owner fun q hq => by
          rw [owner_none fun _ => S.remove_own_self _] at hq
          contradiction
        refine (unmapPageInner_post hvirt _).mono ?_ ?_
        · rintro _ _ ⟨-, rfl⟩
          rw [setOwner_setEntry]
          exact ⟨_, .inr ⟨_, hplace, hown, rfl⟩, hreleased⟩
        · rintro _ _ ⟨hnone, -⟩
          rw [rootValid, setOwner_l1, setOwner_satp] at hnone
          rw [rootValid, hnone] at hroot
          contradiction
      · rintro _ _ rfl
        exact hcleared _ hm
    · have hnone : (W.allowance S).owner (m.entry virt).phys = none :=
        owner_none fun h => absurd h hwatched
      have hkeeps := claimReleaseMove_keeps hW.sound hnone pid .release m hm
      exact hkeeps.mono (fun _ => hcleared) fun _ => hcleared
  · exact hcleared m hm

end

/-- The machine is within the allowance of some places of the given kind, and is that of the
process. -/
def Within (W : Watch) (I : Places → Prop) (pid : PID) (m : Machine) : Prop :=
  (∃ S, I S ∧ (W.allowance S).Obeyed pid m) ∧ m.current = pid

/-- Every page of the range may be unmapped, and the kind of places is kept by that. -/
structure Unmappable (W : Watch) (I : Places → Prop) (pid : PID) (addrs : List Nat) : Prop where
  low : ∀ addr ∈ addrs, W.low (vpn addr) = true
  isOpen : ∀ addr ∈ addrs, W.Open pid (vpn addr)
  keeps : ∀ addr ∈ addrs, ∀ S S', I S → Unmaps pid addr S S' → I S'

variable {I : Places → Prop}

theorem unmapPage_keeps {addrs : List Nat} (h : Unmappable W I pid addrs)
    {addr : Nat} (haddr : addr ∈ addrs) (haligned : addr % pageSize = 0) :
    Keeps (Within W I pid) (unmapPage addr) := by
  rintro m ⟨⟨S, hS, hm⟩, hcurrent⟩
  have hpost := unmapPage_post hW hm haligned (h.low addr haddr) (h.isOpen addr haddr) hcurrent
  have hwithin : ∀ m', W.Reaches pid (Unmaps pid addr S) m' → W.Reaches pid I m' := fun _ ⟨S', hunmaps, hm'⟩ =>
    ⟨S', h.keeps addr haddr S S' hS hunmaps, hm'⟩
  exact (hpost.and ((stable_current pid).unmapPage addr m hcurrent)).both fun m' h => ⟨hwithin m' h.1, h.2⟩

theorem unmapPages_keeps (haligned : virt % pageSize = 0) (h : Unmappable W I pid (Kernel.pages virt (wadd virt size))) :
    Keeps (Within W I pid) (unmapPages virt size) := by
  intro m hm
  rw [unmapPages]
  refine (post_foldEach (I := fun _ => Within W I pid) (E := fun _ => Within W I pid) _
    (fun addr haddr error m1 hm1 => ?_) hm).bind fun error m1 hm1 => ?_
  · rw [post_bind, keepError, post_bind, post_attempt]
    exact unmapPage_keeps hW h haddr ((mem_pages_aligned haligned).mp haddr).2.2 m1 hm1
  · cases error with
    | none => exact hm1
    | some e => exact hm1

theorem unmapMemory_keeps (range : MemoryRange)
    (h : saturatingAdd range.asPtr range.len < userAreaEnd →
      Unmappable W I pid (Kernel.pages range.asPtr (wadd range.asPtr range.len))) :
    Keeps (Within W I pid) (unmapMemory range) := by
  intro m hm
  unfold unmapMemory
  rw [post_ite]
  refine ⟨fun _ => hm, fun haligned => ?_⟩
  rw [post_ite]
  refine ⟨fun _ => hm, fun huser => ?_⟩
  rw [not_or, not_le, not_le] at huser
  exact unmapPages_keeps hW (not_not.mp haligned) (h huser.2) m hm

end Watch

open Labelled

inductive MemoryCall where
  | map (phys virt : Option MemoryAddress) (size : MemorySize) (flags : MemoryFlags)
  | unmap (range : MemoryRange)

def MemoryCall.run (pid : PID) : MemoryCall → MM Unit
  | .map phys virt size flags => do
    let _ ← mapMemory pid phys virt size flags
  | .unmap range => unmapMemory range

def Machine.enter (m : Machine) (pid : PID) : Machine := { m with satp := pid, current := pid }

/-- A call of a process returns, with a value or with an error. -/
def Machine.Calls (m : Machine) (e : PID × MemoryCall) (m' : Machine) : Prop :=
  e.2.run e.1 (m.enter e.1) = .ok () m' ∨ ∃ error, e.2.run e.1 (m.enter e.1) = .err error m'

/-- The call asks for no peripheral page that its process owns, in a range that does not go past the
end of the addresses. -/
def MemoryCall.claimsFresh (pid : PID) (m : Machine) : MemoryCall → Bool
  | .map (some phys) _ size _ =>
    decide (phys.get + size.get < 2 ^ 32) &&
      (pages phys.get (phys.get + size.get)).all fun page =>
        !(m.mem.isPeripheralRam page && decide (m.mem.holder page = some pid))
  | _ => true

/-- A peripheral page is mapped by its recorded owner only, and at one place only. -/
structure Machine.Exclusive (m : Machine) : Prop where
  rooted : ∀ q v, m.mem.l1 q (v / 1024) = false → m.mem.pt q v = .zero
  owned : ∀ q v, (m.mem.pt q v).valid = true → m.mem.isPeripheralRam (m.mem.pt q v).phys = true →
    m.mem.holder (m.mem.pt q v).phys = some q
  single : ∀ q v v', (m.mem.pt q v).valid = true → (m.mem.pt q v').valid = true →
    (m.mem.pt q v).phys = (m.mem.pt q v').phys →
    m.mem.isPeripheralRam (m.mem.pt q v).phys = true → v = v'

/-- Every entry for a peripheral page counts as a mapping of it. -/
def peripheralWatch (l : Layout) : Watch where
  layout := l
  pages := l.isPeripheral
  low := fun _ => true
  extra := fun _ _ _ => True

variable {l : Layout}

theorem peripheralWatch_lawful (hl : l.Sound) : (peripheralWatch l).Lawful where
  sound := hl
  tables _ _ phys _ _ hmain := ⟨fun _ => hl.peripheral phys hmain, fun _ _ => trivial⟩
  rights _ _ _ _ _ _ _ _ := trivial

/-- The peripheral pages have their places, whatever address space is the active one. -/
def PeripheralPlaced (l : Layout) (m : Machine) : Prop :=
  ∃ S space, ((peripheralWatch l).allowance S).Obeyed space m

variable {m : Machine}

theorem PeripheralPlaced.enter (h : PeripheralPlaced l m) (pid : PID) :
    ∃ S, ((peripheralWatch l).allowance S).Obeyed pid (m.enter pid) := by
  obtain ⟨S, space, hm⟩ := h
  exact ⟨S, hm.layout, hm.rooted, hm.entries, hm.owners, rfl⟩

theorem PeripheralPlaced.calls (hl : l.Sound) {m' : Machine} {e : PID × MemoryCall}
    (h : PeripheralPlaced l m) (hfresh : e.2.claimsFresh e.1 m = true) (hcall : m.Calls e m') :
    PeripheralPlaced l m' := by
  obtain ⟨pid, call⟩ := e
  have hW := peripheralWatch_lawful hl
  obtain ⟨S, hm⟩ := h.enter pid
  have hpost : Leaves (call.run pid) (fun m' => ∃ S', ((peripheralWatch l).allowance S').Obeyed pid m') (m.enter pid) := by
    cases call with
    | map phys virt size flags =>
      rw [Leaves, MemoryCall.run, post_bind]
      refine (Watch.mapMemory_post hW hm phys virt size flags (fun addr _ _ => ?_)
        fun base hbase => ?_).both fun _ h => h.imp fun _ => And.right
      · constructor <;> intros <;> exact fun _ _ => trivial
      · subst hbase
        simp only [MemoryCall.claimsFresh, Bool.and_eq_true, decide_eq_true_eq,
          List.all_eq_true, Bool.not_eq_true'] at hfresh
        refine ⟨hfresh.1, fun page hpage hperipheral => .inr fun hholder => ?_⟩
        have hnot := hfresh.2 page hpage
        have hlayout : m.mem.layout = l := hm.layout
        rw [← hlayout] at hperipheral
        rw [show m.mem.isPeripheralRam page = true from hperipheral,
          show m.mem.holder page = some pid from hholder] at hnot
        simp at hnot
    | unmap range =>
      refine (Watch.unmapMemory_keeps hW (I := fun _ => True) range (fun _ => ?_) _
        ⟨⟨S, trivial, hm⟩, rfl⟩).both fun _ h => h.1.imp fun _ => And.right
      exact ⟨fun _ _ => rfl, fun _ _ _ _ => trivial, fun _ _ _ _ _ _ => trivial⟩
  rcases hcall with hok | ⟨error, herr⟩
  · obtain ⟨S', hm'⟩ := hpost.ok hok
    exact ⟨S', pid, hm'⟩
  · obtain ⟨S', hm'⟩ := hpost.err herr
    exact ⟨S', pid, hm'⟩

theorem Machine.Exclusive.placed (h : m.Exclusive) : PeripheralPlaced m.mem.layout m := by
  classical
  let mapped (phys : Nat) (x : PID × Nat) : Prop :=
    (m.mem.pt x.1 x.2).valid = true ∧ (m.mem.pt x.1 x.2).phys = phys
  let place (phys : Nat) : Option (PID × Nat) :=
    if hx : ∃ x, mapped phys x then some hx.choose else none
  let S : Places :=
    ⟨place, fun phys => (place phys).map Prod.fst, fun _ hnone => Option.map_eq_none_iff.mp hnone⟩
  have hplace : ∀ q v, (m.mem.pt q v).valid = true →
      m.mem.isPeripheralRam (m.mem.pt q v).phys = true → place (m.mem.pt q v).phys = some (q, v) := by
    intro q v hvalid hperipheral
    have hx : ∃ x, mapped (m.mem.pt q v).phys x := ⟨(q, v), hvalid, rfl⟩
    obtain ⟨hvalid', hphys'⟩ := hx.choose_spec
    have howner := h.owned q v hvalid hperipheral
    rw [← hphys'] at hperipheral howner
    have hq : hx.choose.1 = q := by
      rw [h.owned _ _ hvalid' hperipheral] at howner
      exact Option.some.inj howner
    have hv : hx.choose.2 = v := by
      rw [hq] at hvalid' hphys' hperipheral
      exact h.single q _ v hvalid' hvalid hphys' hperipheral
    simp only [place, dif_pos hx, Option.some.injEq]
    exact Prod.ext hq hv
  refine ⟨S, m.satp, rfl, h.rooted, fun q v => ⟨fun _ => hplace q v, trivial⟩, fun phys q _ howner => ?_, rfl⟩
  have hperipheral : m.mem.isPeripheralRam phys = true := by
    by_contra hnot
    rw [Watch.owner_none fun h => absurd h hnot] at howner
    contradiction
  have howner : (place phys).map Prod.fst = some q := (if_pos hperipheral).symm.trans howner
  obtain ⟨x, hx, rfl⟩ := Option.map_eq_some_iff.mp howner
  simp only [place] at hx
  split at hx
  · rename_i hsome
    obtain ⟨hvalid, hphys⟩ := hsome.choose_spec
    injection hx with hx
    rw [hx] at hvalid hphys
    rw [← hphys] at hperipheral ⊢
    exact h.owned x.1 x.2 hvalid hperipheral
  · contradiction

/-- From a state in which peripheral pages are mapped by their owners only, calls that claim only
pages new to the caller lead to none that two processes map. -/
theorem peripheral_page_is_mapped_by_one_process {start m : Machine}
    {calls : List (PID × MemoryCall)} (hlayout : start.mem.layout.Sound) (hstart : start.Exclusive)
    (run : Run (fun m e m' => e.2.claimsFresh e.1 m = true ∧ m.Calls e m') start calls m) :
    ∀ phys, m.mem.isPeripheralRam phys = true → ∀ p q, m.mem.Maps p phys → m.mem.Maps q phys →
      p = q := by
  have hplaced : PeripheralPlaced start.mem.layout m :=
    run.invariant hstart.placed fun _ _ _ h hstep => h.calls hlayout hstep.1 hstep.2
  obtain ⟨S, space, hm⟩ := hplaced
  intro phys hperipheral p q hp hq
  have hplace : ∀ pid, m.mem.Maps pid phys → ∃ v, S.place phys = some (pid, v) := by
    rintro pid ⟨virt, -, hvalid, rfl⟩
    have hlayout : m.mem.layout = start.mem.layout := hm.layout
    refine ⟨vpn virt, (hm.entries pid (vpn virt)).1 rfl hvalid ?_⟩
    change start.mem.layout.isPeripheral _ = true
    rwa [← hlayout]
  obtain ⟨v, hv⟩ := hplace p hp
  obtain ⟨w, hw⟩ := hplace q hq
  rw [hv, Option.some.injEq, Prod.mk.injEq] at hw
  exact hw.1

def Machine.afterCalls (test : PID → Machine → MemoryCall → Bool) (m : Machine) :
    List (PID × MemoryCall) → Option Machine
  | [] => some m
  | e :: calls =>
    if test e.1 m e.2 then
      match e.2.run e.1 (m.enter e.1) with
      | .ok _ m' | .err _ m' => m'.afterCalls test calls
      | .panic => none
    else none

theorem Machine.run_of_afterCalls {test : PID → Machine → MemoryCall → Bool} {m' : Machine}
    {calls : List (PID × MemoryCall)} (h : m.afterCalls test calls = some m') :
    Run (fun m e m' => test e.1 m e.2 = true ∧ m.Calls e m') m calls m' := by
  induction calls generalizing m with
  | nil =>
    injection h with h
    exact h ▸ .nil
  | cons e calls ih =>
    rw [afterCalls] at h
    split at h
    · rename_i htest
      split at h
      · rename_i hrun
        exact .cons ⟨htest, .inl hrun⟩ (ih h)
      · rename_i hrun
        exact .cons ⟨htest, .inr ⟨_, hrun⟩⟩ (ih h)
      · contradiction
    · contradiction

/-- Peripheral memory of 64 pages next to the main memory, all of it free. -/
def peripheralMachine : Machine :=
  { (smallKernel (.ready (threadBit 2)) idleServer).core.machine with
    mem := { smallMemory with
      extraRegions := [(0x50000000, 0x40000)]
      peripheralRam := (0x50000000, 0x40000) } }

theorem peripheralMachine_sound : peripheralMachine.mem.layout.Sound where
  ram := by decide
  fits := by decide
  regions := by decide
  peripheral := by
    intro phys hmain
    have hmain : 0x61000000 ≤ phys := (of_decide_eq_true hmain).1
    refine decide_eq_false fun hperipheral => ?_
    have hlt : phys < 0x50000000 + 0x40000 := hperipheral.2
    omega

theorem peripheralMachine_exclusive : peripheralMachine.Exclusive where
  rooted _ _ _ := rfl
  owned _ _ hvalid := nomatch hvalid
  single _ _ _ hvalid := nomatch hvalid

def mapPeripheral (virt : MemoryAddress) : MemoryCall :=
  .map (some ⟨0x50004000, by decide⟩) (some virt) ⟨0x1000, Nat.succ_pos _⟩ { r := true, w := true }

def unmapPeripheral (virt : MemoryAddress) : MemoryCall := .unmap ⟨virt, ⟨0x1000, Nat.succ_pos _⟩⟩

def virtA : MemoryAddress := ⟨0x70000000, by decide⟩
def virtB : MemoryAddress := ⟨0x70001000, by decide⟩

/-- Decides whether a process maps a page at an address. -/
def Memory.mapsAt (m : Memory) (pid : PID) (virt phys : Nat) : Bool :=
  m.l1 pid (vpn1 virt) && (m.pt pid (vpn virt)).valid && decide ((m.pt pid (vpn virt)).phys = phys)

theorem Memory.Maps.of_mapsAt {m : Memory} {pid : PID} {virt phys : Nat}
    (h : m.mapsAt pid virt phys = true) : m.Maps pid phys := by
  simp only [mapsAt, Bool.and_eq_true, decide_eq_true_eq] at h
  exact ⟨virt, h.1.1, h.1.2, h.2⟩

/-- Process 2 maps a page and unmaps it, then process 3 maps it. -/
def handedOn : List (PID × MemoryCall) :=
  [(pid2, mapPeripheral virtA), (pid2, unmapPeripheral virtA), (pid3, mapPeripheral virtB)]

/-- Process 2 maps a page at two addresses and unmaps one of them, then process 3 maps it. -/
def mappedTwice : List (PID × MemoryCall) :=
  [(pid2, mapPeripheral virtA), (pid2, mapPeripheral virtB), (pid2, unmapPeripheral virtA),
    (pid3, mapPeripheral virtA)]

theorem page_handed_on_is_mapped_by_one_process :
    ∃ m, Run Machine.Calls peripheralMachine handedOn m ∧ m.mem.Maps pid3 0x50004000 ∧
      ∀ phys, m.mem.isPeripheralRam phys = true → ∀ p q, m.mem.Maps p phys → m.mem.Maps q phys →
        p = q := by
  have hrun : (peripheralMachine.afterCalls (fun pid m call => call.claimsFresh pid m) handedOn).map
      (fun m => m.mem.mapsAt pid3 0x70001000 0x50004000) = some true := by decide +kernel
  obtain ⟨m, hm, hmaps⟩ := Option.map_eq_some_iff.mp hrun
  have hcalls := Machine.run_of_afterCalls hm
  exact ⟨m, hcalls.mono fun _ _ _ h => h.2, .of_mapsAt hmaps,
    peripheral_page_is_mapped_by_one_process peripheralMachine_sound peripheralMachine_exclusive
      hcalls⟩

/-- The page is free when process 3 asks for it, and is still mapped by process 2. -/
theorem page_mapped_twice_is_shared :
    peripheralMachine.mem.layout.Sound ∧ peripheralMachine.Exclusive ∧
    ∃ m, Run Machine.Calls peripheralMachine mappedTwice m ∧
      m.mem.isPeripheralRam 0x50004000 = true ∧
      m.mem.Maps pid2 0x50004000 ∧ m.mem.Maps pid3 0x50004000 := by
  have hrun : (peripheralMachine.afterCalls (fun _ _ _ => true) mappedTwice).map (fun m =>
      (m.mem.isPeripheralRam 0x50004000, m.mem.mapsAt pid2 0x70001000 0x50004000,
        m.mem.mapsAt pid3 0x70000000 0x50004000)) = some (true, true, true) := by decide +kernel
  obtain ⟨m, hm, hobs⟩ := Option.map_eq_some_iff.mp hrun
  simp only [Prod.mk.injEq] at hobs
  exact ⟨peripheralMachine_sound, peripheralMachine_exclusive, m,
    (Machine.run_of_afterCalls hm).mono fun _ _ _ h => h.2, hobs.1, .of_mapsAt hobs.2.1,
    .of_mapsAt hobs.2.2⟩

end BaochipXous.Kernel
