import BaochipXous.LibRely
import BaochipXous.LibKeyed
import BaochipXous.LibProg

/-!
The virtual addresses of large keys, taken from a pointer that goes up by the largest size of a
file. The pointer is not stored: a mount puts it behind the highest reservation found, so the key
below can no longer grow. It also stays where it is when a new key finds no pages, although the key
stays.
-/

namespace BaochipXous.LargePool

open Prog Labelled

def vpageSize : Nat := 4064

def smallCapacity : Nat := vpageSize

def defaultAllocHint : Nat := 8

def largePoolStart : Nat := 0xFE0000000000

def largeFileMaxSize : Nat := 0x800000000

/-- `PageAlignedVa::from`: up to the next page. -/
def pageAligned (addr : Nat) : Nat :=
  if addr % vpageSize = 0 then addr else (addr / vpageSize + 1) * vpageSize

/-- The pointer goes up by this for each key. -/
def stride : Nat := pageAligned largeFileMaxSize

def usizeAdd (a b : Nat) : Nat := (a + b) % 2 ^ 32

def saturatingAdd (a b : Nat) : Nat := min (a + b) (2 ^ 64 - 1)

structure KeyId where
  dict : Nat
  key : Nat
  deriving DecidableEq

structure LargeKey where
  id : KeyId
  start : Nat
  len : Nat
  reserved : Nat
  deriving DecidableEq

variable (k : LargeKey)

def LargeKey.Covers (addr : Nat) : Prop := k.start ≤ addr ∧ addr < k.start + k.reserved

/-- The large keys of a basis, of all its dictionaries, and the pointer. -/
structure Pool where
  keys : List LargeKey
  ptr : Option Nat
  deriving DecidableEq

variable (p : Pool)

def Pool.allocPtr : Nat := p.ptr.getD largePoolStart

def Pool.put (k : LargeKey) : Pool :=
  { p with keys := Keyed.replace LargeKey.id p.keys k }

inductive Error where
  /-- "Ran out of key indices in dictionary" -/
  | noKeyIndex
  /-- "couldn't allocate memory for large key" -/
  | noPages
  deriving DecidableEq

abbrev PoolM := Prog Error Pool

/-- What the dictionary and the free-space pool have left. -/
structure Supply where
  index : Bool
  pages : Bool

/-- The key with pages up to the end of the data. -/
def LargeKey.extended (offset len : Nat) : LargeKey :=
  { k with reserved := pageAligned (k.start + offset + len) - k.start }

/-- The key cut off behind the data; a page stays. -/
def LargeKey.truncated (newLen : Nat) : LargeKey :=
  let keepEnd := max (pageAligned (k.start + newLen)) (k.start + vpageSize)
  { k with
    reserved := if keepEnd < k.start + k.reserved then keepEnd - k.start else k.reserved
    len := newLen }

def LargeKey.written (offset len : Nat) (truncate : Bool) : LargeKey :=
  if k.len < usizeAdd len offset then { k with len := usizeAdd len offset }
  else if truncate then k.truncated (usizeAdd len offset)
  else k

def newKey (id : KeyId) (start offset len : Nat) (hint : Option Nat) : LargeKey where
  id := id
  start := start
  len := usizeAdd len offset
  reserved := pageAligned (max (hint.getD defaultAllocHint) (usizeAdd len offset))

/-- `key_update` for large keys. A key that is too short is extended, one that is not there is made,
and the call made again. -/
def keyUpdate (id : KeyId) (offset len : Nat) (hint : Option Nat) (truncate : Bool) (supply : Supply) :
    PoolM Unit := do
  match Keyed.get LargeKey.id (← get).keys id with
  | some k =>
    if k.reserved < usizeAdd len offset then do
      assert (decide (usizeAdd offset len ≤ largeFileMaxSize))
      assert (decide ((k.start + k.reserved) % vpageSize = 0))
      assert supply.pages
      modify (·.put ((k.extended offset len).written offset len truncate))
    else modify (·.put (k.written offset len truncate))
  | none =>
    -- a small key does not concern the large pool
    if usizeAdd len offset < smallCapacity ∧ hint.getD defaultAllocHint < smallCapacity then pure ()
    else if supply.index = false then fail .noKeyIndex
    else do
      let start ← gets Pool.allocPtr
      modify (·.put (newKey id start offset len hint))
      if supply.pages = false then fail .noPages
      else do
        modify (·.put ((newKey id start offset len hint).written offset len truncate))
        modify ({ · with ptr := some (saturatingAdd start stride) })

def keyRemove (id : KeyId) : PoolM Unit :=
  modify fun p => { p with keys := Keyed.remove LargeKey.id p.keys id }

def dictDelete (dict : Nat) : PoolM Unit :=
  modify fun p => { p with keys := p.keys.filter fun k => k.id.dict ≠ dict }

/-- `DictCacheEntry::fill`: the highest end of a key of the dictionary. -/
def fill (keys : List LargeKey) (dict : Nat) : Nat :=
  (keys.filter fun k => k.id.dict = dict).foldl
    (fun top k => if top < k.start + k.reserved then k.start + k.reserved else top) largePoolStart

def largePoolUpdate (ptr : Option Nat) (maybeEnd : Nat) : Option Nat :=
  if ptr.getD largePoolStart < maybeEnd then some (pageAligned maybeEnd) else ptr

/-- The pointer goes behind the keys that a scan of the dictionaries finds. -/
def populateCaches (dicts : List Nat) : PoolM Unit :=
  modify fun p => { p with ptr := dicts.foldl (fun ptr dict => largePoolUpdate ptr (fill p.keys dict)) p.ptr }

/-- Unmounting and mounting: the pointer is found anew. -/
def remount (dicts : List Nat) : PoolM Unit := do
  modify ({ · with ptr := none })
  populateCaches dicts

inductive Op where
  | keyUpdate (id : KeyId) (offset len : BitVec 32) (hint : Option (BitVec 32)) (truncate : Bool)
      (supply : Supply)
  | keyRemove (id : KeyId)
  | dictDelete (dict : Nat)
  | populateCaches (dicts : List Nat)
  | remount (dicts : List Nat)

def exec : Op → PoolM Unit
  | .keyUpdate id offset len hint truncate supply =>
    keyUpdate id offset.toNat len.toNat (hint.map BitVec.toNat) truncate supply
  | .keyRemove id => keyRemove id
  | .dictDelete dict => dictDelete dict
  | .populateCaches dicts => populateCaches dicts
  | .remount dicts => remount dicts

def Returns (op : Op) (p' : Pool) : Prop :=
  exec op p = .ok () p' ∨ ∃ e, exec op p = .err e p'

/-- The pointer is the largest size of a file above every key, and below the end of the addresses by
as much. -/
def Pool.HasRoom : Prop := (∀ k ∈ p.keys, k.start + stride ≤ p.allocPtr) ∧ p.allocPtr + stride < 2 ^ 64

/-- A large key that is made has room to grow. -/
def HasRoom : Op → Prop
  | .keyUpdate id offset len hint _ supply => Keyed.get LargeKey.id p.keys id = none →
      ¬(usizeAdd len.toNat offset.toNat < smallCapacity ∧
        (hint.map BitVec.toNat).getD defaultAllocHint < smallCapacity) → supply.index = true → p.HasRoom
  | _ => True

theorem pageAligned_lt (addr : Nat) : pageAligned addr < addr + vpageSize := by
  rw [pageAligned]
  split
  · exact Nat.lt_add_of_pos_right (by decide)
  · have hdiv := Nat.div_add_mod addr vpageSize
    simp only [vpageSize] at *
    omega

theorem pageAligned_mod (addr : Nat) : pageAligned addr % vpageSize = 0 := by
  rw [pageAligned]
  split
  · assumption
  · exact Nat.mul_mod_left _ _

theorem pageAligned_add {start : Nat} (hstart : start % vpageSize = 0) (size : Nat) :
    pageAligned (start + size) = start + pageAligned size := by
  have hmod : (start + size) % vpageSize = size % vpageSize := by
    rw [Nat.add_mod, hstart, Nat.zero_add, Nat.mod_mod]
  have hstart' := Nat.div_add_mod start vpageSize
  have hsize := Nat.div_add_mod size vpageSize
  have hsum := Nat.div_add_mod (start + size) vpageSize
  rw [pageAligned, pageAligned, hmod]
  split
  · rfl
  · simp only [vpageSize] at *
    omega

theorem stride_eq : stride = 34359742304 := by decide

theorem usizeAdd_lt (a b : Nat) : usizeAdd a b < 2 ^ 32 := Nat.mod_lt _ (by decide)

/-- The key has a page at least and no more than its share of the addresses. -/
structure LargeKey.Ok : Prop where
  aligned : k.start % vpageSize = 0
  reserved_le : k.reserved ≤ stride

/-- The keys are apart by their shares. -/
structure Spaced : Prop where
  distinct : Keyed.Distinct LargeKey.id p.keys
  ok : ∀ k ∈ p.keys, k.Ok
  apart : ∀ k ∈ p.keys, ∀ k' ∈ p.keys, k.id ≠ k'.id →
    k.start + stride ≤ k'.start ∨ k'.start + stride ≤ k.start
  ptr_aligned : p.allocPtr % vpageSize = 0

section

variable {p : Pool} {k : LargeKey} {offset len : Nat} {truncate : Bool}

theorem LargeKey.Ok.truncated (h : k.Ok) (newLen : Nat) : (k.truncated newLen).Ok := by
  refine ⟨h.aligned, ?_⟩
  have hle := h.reserved_le
  simp only [LargeKey.truncated]
  split <;> omega

theorem LargeKey.Ok.written (h : k.Ok) : (k.written offset len truncate).Ok := by
  rw [LargeKey.written]
  split
  · exact ⟨h.aligned, h.reserved_le⟩
  · split
    · exact h.truncated _
    · exact h

theorem LargeKey.Ok.extended (h : k.Ok) (hoffset : offset < 2 ^ 32) (hlen : len < 2 ^ 32) :
    (k.extended offset len).Ok := by
  refine ⟨h.aligned, ?_⟩
  have hlt := pageAligned_lt (k.start + offset + len)
  simp only [LargeKey.extended, stride_eq, vpageSize] at *
  omega

theorem newKey_ok {id : KeyId} {start : Nat} {hint : Option Nat} (hstart : start % vpageSize = 0)
    (hhint : hint.getD defaultAllocHint < 2 ^ 32) : (newKey id start offset len hint).Ok := by
  refine ⟨hstart, ?_⟩
  have hlt := pageAligned_lt (max (hint.getD defaultAllocHint) (usizeAdd len offset))
  have hsum := usizeAdd_lt len offset
  simp only [newKey, stride_eq, vpageSize] at *
  omega

@[simp] theorem LargeKey.written_start : (k.written offset len truncate).start = k.start := by
  rw [LargeKey.written]
  split
  · rfl
  · split <;> rfl

@[simp] theorem LargeKey.written_id : (k.written offset len truncate).id = k.id := by
  rw [LargeKey.written]
  split
  · rfl
  · split <;> rfl

theorem Spaced.put (h : Spaced p) (hok : k.Ok) (hapart : ∀ q ∈ p.keys, q.id ≠ k.id →
      q.start + stride ≤ k.start ∨ k.start + stride ≤ q.start) : Spaced (p.put k) := by
  have hother : ∀ q ∈ Keyed.remove LargeKey.id p.keys k.id, q ∈ p.keys := fun q hq =>
    (List.mem_filter.mp hq).1
  refine ⟨h.distinct.replace k, ?_, ?_, h.ptr_aligned⟩
  · intro q hq
    rcases List.mem_cons.mp hq with rfl | hrest
    · exact hok
    · exact h.ok q (hother q hrest)
  · intro q hq q' hq' hne
    rcases List.mem_cons.mp hq with rfl | hrest
    · rcases List.mem_cons.mp hq' with rfl | hrest'
      · exact absurd rfl hne
      · exact (hapart q' (hother q' hrest') hne.symm).symm
    · rcases List.mem_cons.mp hq' with rfl | hrest'
      · exact hapart q (hother q hrest) hne
      · exact h.apart q (hother q hrest) q' (hother q' hrest') hne

theorem Spaced.put_same (h : Spaced p) {k' : LargeKey} (hk : k ∈ p.keys) (hid : k'.id = k.id)
    (hstart : k'.start = k.start) (hok : k'.Ok) : Spaced (p.put k') := by
  apply h.put hok
  rw [hid, hstart]
  exact fun q hq => h.apart q hq k hk

theorem Spaced.filter (h : Spaced p) (keep : LargeKey → Bool) :
    Spaced { p with keys := p.keys.filter keep } where
  distinct := h.distinct.filter keep
  ok k hk := h.ok k (List.mem_filter.mp hk).1
  apart k hk k' hk' := h.apart k (List.mem_filter.mp hk).1 k' (List.mem_filter.mp hk').1
  ptr_aligned := h.ptr_aligned

theorem scan_ptr_aligned (keys : List LargeKey) (dicts : List Nat) {ptr : Option Nat}
    (h : ptr.getD largePoolStart % vpageSize = 0) :
    (dicts.foldl (fun ptr dict => largePoolUpdate ptr (fill keys dict)) ptr).getD largePoolStart % vpageSize = 0 := by
  induction dicts generalizing ptr with
  | nil => exact h
  | cons dict dicts ih =>
    apply ih
    simp only [largePoolUpdate]
    split
    · exact pageAligned_mod _
    · exact h

theorem Spaced.keyUpdate (h : Spaced p) {id : KeyId} {hint : Option Nat} {supply : Supply}
    (hoffset : offset < 2 ^ 32) (hlen : len < 2 ^ 32) (hhint : hint.getD defaultAllocHint < 2 ^ 32)
    (hroom : Keyed.get LargeKey.id p.keys id = none → ¬(usizeAdd len offset < smallCapacity ∧
      hint.getD defaultAllocHint < smallCapacity) → supply.index = true → p.HasRoom) :
    Leaves (keyUpdate id offset len hint truncate supply) Spaced p := by
  rw [Leaves, LargePool.keyUpdate, post_bind, post_get]
  cases hget : Keyed.get LargeKey.id p.keys id with
  | some k =>
    have hmem := Keyed.get_mem hget
    have hok := h.ok k hmem
    simp only
    rw [post_ite]
    refine ⟨fun _ => ?_, fun _ => ?_⟩
    · rw [post_bind, post_assert]
      intro _
      rw [post_bind, post_assert]
      intro _
      rw [post_bind, post_assert]
      intro _
      exact h.put_same hmem LargeKey.written_id LargeKey.written_start (hok.extended hoffset hlen).written
    · exact h.put_same hmem LargeKey.written_id LargeKey.written_start hok.written
  | none =>
    simp only
    rw [post_ite]
    refine ⟨fun _ => h, fun hlarge => ?_⟩
    rw [post_ite]
    refine ⟨fun _ => h, fun hindex => ?_⟩
    obtain ⟨hbelow, hend⟩ := hroom hget hlarge (by simpa using hindex)
    rw [post_bind, post_gets, post_bind, post_modify]
    have hok : (newKey id p.allocPtr offset len hint).Ok := newKey_ok h.ptr_aligned hhint
    have hput := h.put (k := newKey id p.allocPtr offset len hint) hok fun q hq _ => .inl (hbelow q hq)
    rw [post_ite]
    refine ⟨fun _ => hput, fun _ => ?_⟩
    rw [post_bind, post_modify, post_modify]
    have hwritten : Spaced ((p.put (newKey id p.allocPtr offset len hint)).put
        ((newKey id p.allocPtr offset len hint).written offset len truncate)) :=
      hput.put_same List.mem_cons_self LargeKey.written_id LargeKey.written_start hok.written
    refine ⟨hwritten.distinct, hwritten.ok, hwritten.apart, ?_⟩
    have haligned := h.ptr_aligned
    have hsum : saturatingAdd p.allocPtr stride = p.allocPtr + stride := by
      rw [saturatingAdd]
      omega
    rw [Pool.allocPtr, Option.getD_some, hsum, Nat.add_mod, haligned, stride, pageAligned_mod,
      Nat.add_zero, Nat.zero_mod]

theorem Spaced.exec (h : Spaced p) {op : Op} (hroom : HasRoom p op) : Leaves (exec op) Spaced p := by
  cases op with
  | keyUpdate id offset len hint truncate supply =>
    have hhint : (hint.map BitVec.toNat).getD defaultAllocHint < 2 ^ 32 := by
      cases hint with
      | none => decide
      | some hint => exact hint.isLt
    exact h.keyUpdate offset.isLt len.isLt hhint hroom
  | keyRemove id | dictDelete dict => exact h.filter _
  | populateCaches dicts => exact ⟨h.distinct, h.ok, h.apart, scan_ptr_aligned p.keys dicts h.ptr_aligned⟩
  | remount dicts =>
    have hnone : (none : Option Nat).getD largePoolStart % vpageSize = 0 := by decide
    exact ⟨h.distinct, h.ok, h.apart, scan_ptr_aligned p.keys dicts hnone⟩

end

/-- From a new basis, over every sequence of updates, removals and mounts in which every new key has
room to grow: the ranges of two large keys have no address in common, and get none by growing to the
largest size of a file. -/
theorem large_ranges_are_disjoint {p : Pool} {ops : List Op}
    (run : Run (fun p op p' => HasRoom p op ∧ Returns p op p') ⟨[], none⟩ ops p) :
    ∀ k ∈ p.keys, ∀ k' ∈ p.keys, k ≠ k' →
      (∀ addr, ¬(k.Covers addr ∧ k'.Covers addr)) ∧
      ∀ addr, k.start ≤ addr → addr < pageAligned (k.start + largeFileMaxSize) → ¬ k'.Covers addr := by
  have hspaced : Spaced p := by
    refine run.invariant ⟨List.nodup_nil, nofun, nofun, by decide⟩ ?_
    rintro p op p' h ⟨hroom, hreturns⟩
    rcases hreturns with hok | ⟨e, herr⟩
    · exact (h.exec hroom).ok hok
    · exact (h.exec hroom).err herr
  intro k hk k' hk' hne
  have hid : k.id ≠ k'.id := by
    intro heq
    have hget := hspaced.distinct.get_eq hk
    rw [heq, hspaced.distinct.get_eq hk'] at hget
    exact hne (Option.some.inj hget).symm
  have hgrown : pageAligned (k.start + largeFileMaxSize) = k.start + stride :=
    pageAligned_add (hspaced.ok k hk).aligned largeFileMaxSize
  have hreserved := (hspaced.ok k hk).reserved_le
  have hreserved' := (hspaced.ok k' hk').reserved_le
  have hapart := hspaced.apart k hk k' hk' hid
  constructor
  · rintro addr ⟨⟨hlo, hhi⟩, hlo', hhi'⟩
    omega
  · rintro addr hlo hhi ⟨hlo', hhi'⟩
    omega

def sampleUpdate (key : Nat) (offset len : BitVec 32) : Op :=
  .keyUpdate ⟨0, key⟩ offset len none false ⟨true, true⟩

def samplePool (keys : List (Nat × Nat)) (ptr : Nat) : Pool where
  keys := keys.map fun key => ⟨⟨0, key.1⟩, key.2, 5000, 8128⟩
  ptr := some ptr

def firstPool : Pool := samplePool [(0, largePoolStart)] (largePoolStart + stride)

theorem first_key : exec (sampleUpdate 0 0 5000) ⟨[], none⟩ = .ok () firstPool := rfl

/-- Two keys in one mount, with a scan between them. -/
theorem two_keys_stay_apart :
    ∃ p, Run (fun p op p' => HasRoom p op ∧ Returns p op p') ⟨[], none⟩
        [sampleUpdate 0 0 5000, .populateCaches [0], sampleUpdate 1 0 5000] p ∧
      ∀ addr, ¬(LargeKey.Covers ⟨⟨0, 0⟩, largePoolStart, 5000, 8128⟩ addr ∧
        LargeKey.Covers ⟨⟨0, 1⟩, largePoolStart + stride, 5000, 8128⟩ addr) := by
  have hsecond : exec (sampleUpdate 1 0 5000) firstPool =
      .ok () (samplePool [(1, largePoolStart + stride), (0, largePoolStart)]
        (largePoolStart + 2 * stride)) := by decide +kernel
  have hroom : HasRoom firstPool (sampleUpdate 1 0 5000) := by
    refine fun _ _ _ => ⟨?_, by decide +kernel⟩
    intro k hk
    rw [List.mem_singleton.mp hk]
    decide +kernel
  have hscan : exec (.populateCaches [0]) firstPool = .ok () firstPool := by decide +kernel
  have hrun : Run (fun p op p' => HasRoom p op ∧ Returns p op p') ⟨[], none⟩
      [sampleUpdate 0 0 5000, .populateCaches [0], sampleUpdate 1 0 5000] _ :=
    .cons ⟨fun _ _ _ => ⟨nofun, by decide +kernel⟩, .inl first_key⟩
      (.cons ⟨trivial, .inl hscan⟩ (.cons ⟨hroom, .inl hsecond⟩ .nil))
  refine ⟨_, hrun, ?_⟩
  exact (large_ranges_are_disjoint hrun _ (by decide +kernel) _ (by decide +kernel) (by decide +kernel)).1

/-- After a mount a second key is made directly behind the two pages of the first. The first grows
by a page, and both have the address. -/
theorem ranges_overlap_after_mount :
    ∃ p, Run Returns ⟨[], none⟩
        [sampleUpdate 0 0 5000, .remount [0], sampleUpdate 1 0 5000, sampleUpdate 0 8000 200] p ∧
      ∃ k ∈ p.keys, ∃ k' ∈ p.keys, k ≠ k' ∧ k.Covers (largePoolStart + 8128) ∧
        k'.Covers (largePoolStart + 8128) := by
  have hmount : exec (.remount [0]) firstPool =
      .ok () (samplePool [(0, largePoolStart)] (largePoolStart + 8128)) := by decide +kernel
  have hsecond : exec (sampleUpdate 1 0 5000) (samplePool [(0, largePoolStart)] (largePoolStart + 8128)) =
      .ok () (samplePool [(1, largePoolStart + 8128), (0, largePoolStart)]
        (largePoolStart + 8128 + stride)) := by decide +kernel
  have hgrow : exec (sampleUpdate 0 8000 200) (samplePool [(1, largePoolStart + 8128), (0, largePoolStart)]
      (largePoolStart + 8128 + stride)) =
      .ok () ⟨[⟨⟨0, 0⟩, largePoolStart, 8200, 12192⟩, ⟨⟨0, 1⟩, largePoolStart + 8128, 5000, 8128⟩],
        some (largePoolStart + 8128 + stride)⟩ := by decide +kernel
  refine ⟨_, .cons (.inl first_key) (.cons (.inl hmount) (.cons (.inl hsecond)
    (.cons (.inl hgrow) .nil))), _, List.mem_cons_self, _, List.mem_cons_of_mem _ List.mem_cons_self, ?_⟩
  exact ⟨by decide +kernel, ⟨by decide +kernel, by decide +kernel⟩, ⟨by decide +kernel, by decide +kernel⟩⟩

end BaochipXous.LargePool
