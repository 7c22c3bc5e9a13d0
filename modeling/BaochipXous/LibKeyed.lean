import Mathlib.Tactic

/-!
Hash sets whose elements are told apart by a key, a list in the order of iteration, no key twice; and
numbered places that are free or held, a free one by no holder, a place by one holder at most and a
holder of one place at most.
-/

namespace Keyed

variable {α κ : Type} [DecidableEq κ] (key : α → κ)

variable (set : List α)

def get (k : κ) : Option α := set.find? fun a => key a = k

def remove (k : κ) : List α := set.filter fun a => key a ≠ k

def insert (a : α) : List α := if (get key set (key a)).isSome then set else a :: set

def replace (a : α) : List α := a :: remove key set (key a)

def Distinct : Prop := (set.map key).Nodup

variable {key} {set : List α} {a b : α} {k : κ}

theorem get_mem (h : get key set k = some a) : a ∈ set := List.mem_of_find?_eq_some h

theorem get_key (h : get key set k = some a) : key a = k := by
  have hkey := List.find?_some h
  simpa using hkey

theorem get_eq_none : get key set k = none ↔ ∀ a ∈ set, key a ≠ k := by simp [get]

theorem get_cons (a : α) (set : List α) (k : κ) :
    get key (a :: set) k = if key a = k then some a else get key set k := by
  rw [get, List.find?_cons]
  by_cases hkey : key a = k <;> simp [hkey, get]

theorem Distinct.get_eq (hset : Distinct key set) (ha : a ∈ set) : get key set (key a) = some a := by
  induction set with
  | nil => contradiction
  | cons b rest ih =>
    rw [Distinct, List.map_cons, List.nodup_cons] at hset
    rw [get_cons]
    rcases List.mem_cons.mp ha with rfl | hrest
    · rw [if_pos rfl]
    · have hne : key b ≠ key a := fun heq => hset.1 (heq ▸ List.mem_map_of_mem hrest)
      rw [if_neg hne, ih hset.2 hrest]

theorem get_remove (set : List α) (k k' : κ) :
    get key (remove key set k) k' = if k' = k then none else get key set k' := by
  split
  · rename_i heq
    subst heq
    rw [get_eq_none]
    intro a ha
    simpa using (List.mem_filter.mp ha).2
  · rename_i hne
    rw [get, remove, List.find?_filter, get]
    congr 1
    funext a
    by_cases hkey : key a = k'
    · simp [hkey, hne]
    · simp [hkey]

theorem get_insert (set : List α) (a : α) (k : κ) :
    get key (insert key set a) k = (get key set k).or (if key a = k then some a else none) := by
  rw [insert]
  split
  · rename_i hsome
    by_cases hkey : key a = k
    · subst hkey
      obtain ⟨b, hb⟩ := Option.isSome_iff_exists.mp hsome
      rw [hb, Option.some_or]
    · rw [if_neg hkey, Option.or_none]
  · rename_i hnone
    rw [get_cons]
    by_cases hkey : key a = k
    · subst hkey
      rw [if_pos rfl, Option.not_isSome_iff_eq_none.mp hnone, Option.none_or, if_pos rfl]
    · rw [if_neg hkey, if_neg hkey, Option.or_none]

theorem get_replace (set : List α) (a : α) (k : κ) :
    get key (replace key set a) k = if key a = k then some a else get key set k := by
  rw [replace, get_cons, get_remove]
  by_cases hkey : key a = k
  · rw [if_pos hkey, if_pos hkey]
  · rw [if_neg hkey, if_neg hkey, if_neg (Ne.symm hkey)]

theorem Distinct.remove (hset : Distinct key set) (k : κ) : Distinct key (remove key set k) :=
  hset.sublist (List.filter_sublist.map key)

theorem Distinct.insert (hset : Distinct key set) (a : α) : Distinct key (insert key set a) := by
  rw [Keyed.insert]
  split
  · exact hset
  · rename_i hnone
    rw [Option.not_isSome_iff_eq_none, get_eq_none] at hnone
    rw [Distinct, List.map_cons, List.nodup_cons]
    refine ⟨fun hmem => ?_, hset⟩
    obtain ⟨b, hb, heq⟩ := List.mem_map.mp hmem
    exact hnone b hb heq

theorem Distinct.replace (hset : Distinct key set) (a : α) : Distinct key (replace key set a) := by
  rw [Keyed.replace, Distinct, List.map_cons, List.nodup_cons]
  refine ⟨fun hmem => ?_, hset.remove _⟩
  obtain ⟨b, hb, heq⟩ := List.mem_map.mp hmem
  have hne := (List.mem_filter.mp hb).2
  simp [heq] at hne

theorem remove_eq_self (h : ∀ a ∈ set, key a ≠ k) : Keyed.remove key set k = set := by
  rw [Keyed.remove, List.filter_eq_self]
  intro a ha
  simpa using h a ha

theorem insert_remove (set : List α) (a : α) :
    Keyed.insert key (Keyed.remove key set (key a)) a = a :: Keyed.remove key set (key a) := by
  rw [Keyed.insert, get_remove, if_pos rfl]
  rfl

theorem remove_filter (p : α → Bool) (set : List α) (k : κ) :
    (Keyed.remove key set k).filter p = Keyed.remove key (set.filter p) k := by
  rw [Keyed.remove, Keyed.remove, List.filter_comm]

omit [DecidableEq κ] in
theorem Distinct.filter (hset : Distinct key set) (p : α → Bool) : Distinct key (set.filter p) :=
  hset.sublist (List.filter_sublist.map key)

theorem Distinct.length_remove (hset : Distinct key set) (ha : a ∈ set) :
    (Keyed.remove key set (key a)).length + 1 = set.length := by
  induction set with
  | nil => contradiction
  | cons b rest ih =>
    rw [Distinct, List.map_cons, List.nodup_cons] at hset
    rcases List.mem_cons.mp ha with rfl | hrest
    · have hrest : Keyed.remove key rest (key a) = rest :=
        remove_eq_self fun c hc heq => hset.1 (heq ▸ List.mem_map_of_mem hc)
      have hcons : Keyed.remove key (a :: rest) (key a) = Keyed.remove key rest (key a) :=
        List.filter_cons_of_neg (by simp)
      rw [hcons, hrest, List.length_cons]
    · have hne : key b ≠ key a := fun heq => hset.1 (heq ▸ List.mem_map_of_mem hrest)
      have hcons : Keyed.remove key (b :: rest) (key a) = b :: Keyed.remove key rest (key a) :=
        List.filter_cons_of_pos (by simpa using hne)
      rw [hcons, List.length_cons, List.length_cons, ih hset.2 hrest]

theorem mem_of_mem_insert (h : b ∈ Keyed.insert key set a) : b = a ∨ b ∈ set := by
  rw [Keyed.insert] at h
  split at h
  · exact .inr h
  · exact List.mem_cons.mp h

theorem mem_of_mem_foldl_insert {l : List α} (h : b ∈ l.foldl (Keyed.insert key) set) : b ∈ l ∨ b ∈ set := by
  induction l generalizing set with
  | nil => exact .inr h
  | cons a l ih =>
    rcases ih h with hmem | hmem
    · exact .inl (List.mem_cons_of_mem a hmem)
    · rcases mem_of_mem_insert hmem with rfl | hold
      · exact .inl List.mem_cons_self
      · exact .inr hold

theorem foldl_insert_perm {l : List α} (h : Distinct key (l ++ set)) :
    (l.foldl (Keyed.insert key) set).Perm (l ++ set) := by
  induction l generalizing set with
  | nil => exact .refl _
  | cons a l ih =>
    have hmoved : Distinct key (l ++ a :: set) := ((List.perm_middle.map key).nodup_iff).mpr h
    have hfresh : get key set (key a) = none := by
      rw [get_eq_none]
      intro b hb heq
      rw [Distinct, List.cons_append, List.map_cons, List.nodup_cons] at h
      exact h.1 (heq ▸ List.mem_map_of_mem (List.mem_append_right l hb))
    have hinsert : Keyed.insert key set a = a :: set := by
      rw [Keyed.insert, hfresh]
      rfl
    rw [List.foldl_cons, hinsert]
    exact (ih hmoved).trans List.perm_middle

end Keyed

structure Ledger {ω : Type} (bound : Nat) (free : Nat → Prop) (holds : ω → Nat → Prop) : Prop where
  free_lt : ∀ n, free n → n < bound
  holds_lt : ∀ o n, holds o n → n < bound
  apart : ∀ n, free n → ∀ o, ¬ holds o n
  one_holder : ∀ o o' n, holds o n → holds o' n → o = o'
  one_place : ∀ o n n', holds o n → holds o n' → n = n'

namespace Ledger

variable {ω : Type} {bound : Nat} {free free' : Nat → Prop} {holds holds' : ω → Nat → Prop} {a : ω} {p : Nat}

theorem mono (h : Ledger bound free holds) (hholds : ∀ o n, holds' o n → holds o n)
    (hfree : ∀ n, free' n → free n ∨ n < bound ∧ ∀ o, ¬ holds' o n) : Ledger bound free' holds' := by
  obtain ⟨hlt, hheld, hapart, hholder, hplace⟩ := h
  constructor <;> grind

/-- A free place goes to a holder, which loses the place it had. -/
theorem take (h : Ledger bound free holds) (hp : free p) (hfree : ∀ n, free' n → free n ∧ n ≠ p)
    (hholds : ∀ o n, holds' o n → (o = a ∧ n = p) ∨ (o ≠ a ∧ holds o n)) : Ledger bound free' holds' := by
  obtain ⟨hlt, hheld, hapart, hholder, hplace⟩ := h
  constructor <;> grind

theorem giveBack (h : Ledger bound free holds) (hp : holds a p) (hfree : ∀ n, free' n → n = p ∨ free n)
    (hholds : ∀ o n, holds' o n → o ≠ a ∧ holds o n) : Ledger bound free' holds' := by
  refine h.mono (fun o n hon => (hholds o n hon).2) ?_
  obtain ⟨hlt, hheld, hapart, hholder, hplace⟩ := h
  grind

end Ledger
