import Mathlib.Tactic

/-!
Fallible programs over a state. A program ends in a value, in an error with the state in which it
was raised, or in a halt without a state; nothing is rolled back unless the program does it. The
rules are for postconditions, for total correctness and for predicates that a program keeps.
-/

/-- What a program ends in. -/
inductive Outcome (ε σ α : Type) where
  | ok (value : α) (state : σ)
  | err (error : ε) (state : σ)
  | panic
  deriving DecidableEq

namespace Outcome

variable {ε σ α : Type}

/-- The outcome is an error that passes the test. -/
def errs (test : ε → σ → Bool) : Outcome ε σ α → Bool
  | err e s => test e s
  | _ => false

/-- The outcome is a value that passes the test. -/
def returns (test : α → σ → Bool) : Outcome ε σ α → Bool
  | ok a s => test a s
  | _ => false

variable {o : Outcome ε σ α}

theorem exists_of_errs {test : ε → σ → Bool} (h : o.errs test = true) : ∃ e s, o = .err e s ∧ test e s = true := by
  cases o with
  | err e s => exact ⟨e, s, rfl, h⟩
  | _ => contradiction

theorem exists_of_returns {test : α → σ → Bool} (h : o.returns test = true) : ∃ a s, o = .ok a s ∧ test a s = true := by
  cases o with
  | ok a s => exact ⟨a, s, rfl, h⟩
  | _ => contradiction

theorem ne_panic_of_returns {test : α → σ → Bool} (h : o.returns test = true) : o ≠ .panic := by
  obtain ⟨a, s, rfl, -⟩ := exists_of_returns h
  nofun

end Outcome

/-- A program over the state `σ` with errors `ε`. -/
def Prog (ε σ α : Type) : Type := σ → Outcome ε σ α

namespace Prog

variable {ε σ α β : Type}

variable (m : Prog ε σ α)

/-- Sequencing: an error or a halt of the first program is the outcome of the whole. -/
def andThen (f : α → Prog ε σ β) : Prog ε σ β := fun s =>
  match m s with
  | .ok a s' => f a s'
  | .err e s' => .err e s'
  | .panic => .panic

instance : Monad (Prog ε σ) where
  pure a := fun s => .ok a s
  bind := andThen

def fail (e : ε) : Prog ε σ α := fun s => .err e s

def halt : Prog ε σ α := fun _ => .panic

def get : Prog ε σ σ := fun s => .ok s s

def gets (f : σ → α) : Prog ε σ α := fun s => .ok (f s) s

def modify (f : σ → σ) : Prog ε σ Unit := fun s => .ok () (f s)

def assert (c : Bool) : Prog ε σ Unit := if c then pure () else halt

def when (c : Bool) (m : Prog ε σ Unit) : Prog ε σ Unit := if c then m else pure ()

/-- The value of an optional result, or the error. -/
def ofOption (e : ε) : Option α → Prog ε σ α
  | some a => pure a
  | none => fail e

/-- An error of the program becomes a halt. -/
def unwrap : Prog ε σ α := fun s =>
  match m s with
  | .ok a s' => .ok a s'
  | .err _ _ => .panic
  | .panic => .panic

/-- Hand an error of the program to the caller as a value. -/
def attempt : Prog ε σ (Except ε α) := fun s =>
  match m s with
  | .ok a s' => .ok (.ok a) s'
  | .err e s' => .ok (.error e) s'
  | .panic => .panic

def forEach (xs : List β) (f : β → Prog ε σ Unit) : Prog ε σ Unit :=
  match xs with
  | [] => pure ()
  | x :: rest => do
    f x
    forEach rest f

/-- The value of a result, or its error. -/
def ofExcept : Except ε α → Prog ε σ α
  | .ok a => pure a
  | .error e => fail e

/-- Run the program for each element of the list, handing an accumulator on. -/
def foldEach {γ : Type} (xs : List β) (acc : γ) (f : γ → β → Prog ε σ γ) : Prog ε σ γ :=
  match xs with
  | [] => pure acc
  | x :: rest => do
    let acc ← f acc x
    foldEach rest acc f

/-- Run `handler` on an error of the program, then pass the error on. -/
def onError (handler : Prog ε σ Unit) (m : Prog ε σ α) : Prog ε σ α := do
  match ← attempt m with
  | .ok a => pure a
  | .error e => do
    handler
    fail e

/-- Run a program on the part of the state that `view` shows and `put` replaces. -/
def zoom {τ : Type} (view : σ → τ) (put : σ → τ → σ) (m : Prog ε τ α) : Prog ε σ α := fun s =>
  match m (view s) with
  | .ok a t => .ok a (put s t)
  | .err e t => .err e (put s t)
  | .panic => .panic

@[simp] theorem pure_apply (a : α) (s : σ) : (pure a : Prog ε σ α) s = .ok a s := rfl

theorem bind_apply (f : α → Prog ε σ β) (s : σ) :
    (m >>= f) s = match m s with
      | .ok a s' => f a s'
      | .err e s' => .err e s'
      | .panic => .panic := rfl

@[simp] theorem fail_apply (e : ε) (s : σ) : (fail e : Prog ε σ α) s = .err e s := rfl

@[simp] theorem halt_apply (s : σ) : (halt : Prog ε σ α) s = .panic := rfl

@[simp] theorem get_apply (s : σ) : (get : Prog ε σ σ) s = .ok s s := rfl

@[simp] theorem gets_apply (f : σ → α) (s : σ) : (gets f : Prog ε σ α) s = .ok (f s) s := rfl

@[simp] theorem modify_apply (f : σ → σ) (s : σ) : (modify f : Prog ε σ Unit) s = .ok () (f s) := rfl

/-- What holds when the program returns: `Q` of a value and the state with it, `E` of an error and
the state with it. A program that halts does not return. -/
def Post (Q : α → σ → Prop) (E : ε → σ → Prop) (s : σ) : Prop :=
  match m s with
  | .ok a s' => Q a s'
  | .err e s' => E e s'
  | .panic => True

section Rules

variable {Q Q' : α → σ → Prop} {E E' : ε → σ → Prop} {s : σ}

variable {m : Prog ε σ α}

theorem Post.mono (h : Post m Q E s) (hQ : ∀ a s', Q a s' → Q' a s') (hE : ∀ e s', E e s' → E' e s') : Post m Q' E' s := by
  unfold Post at *
  generalize m s = o at *
  cases o with
  | ok a s' => exact hQ a s' h
  | err e s' => exact hE e s' h
  | panic => trivial

theorem Post.imp (h : Post m Q E s) (hQ : ∀ a s', Q a s' → Q' a s') : Post m Q' E s :=
  h.mono hQ fun _ _ he => he

/-- What holds after the program, whether it returns a value or an error. -/
abbrev Leaves (m : Prog ε σ α) (I : σ → Prop) (s : σ) : Prop := Post m (fun _ => I) (fun _ => I) s

theorem Post.both {I J : σ → Prop} (h : Leaves m I s) (hJ : ∀ s', I s' → J s') : Leaves m J s :=
  h.mono (fun _ => hJ) fun _ => hJ

theorem Post.weaken (h : Post m Q E s) : Post m Q (fun _ _ => True) s :=
  h.mono (fun _ _ hq => hq) fun _ _ _ => trivial

theorem Post.never (h : Post m Q (fun _ _ => False) s) : Post m Q E s :=
  h.mono (fun _ _ hq => hq) fun _ _ hfalse => hfalse.elim

theorem Post.ok {a : α} {s' : σ} (h : Post m Q E s) (hm : m s = .ok a s') : Q a s' := by
  rwa [Post, hm] at h

theorem Post.err {e : ε} {s' : σ} (h : Post m Q E s) (hm : m s = .err e s') : E e s' := by
  rwa [Post, hm] at h

theorem Post.of_forall (hQ : ∀ a s', Q a s') (hE : ∀ e s', E e s') : Post m Q E s := by
  unfold Post
  split
  · exact hQ _ _
  · exact hE _ _
  · trivial

theorem Post.and (h : Post m Q E s) (h' : Post m Q' E' s) :
    Post m (fun a s' => Q a s' ∧ Q' a s') (fun e s' => E e s' ∧ E' e s') s := by
  unfold Post at *
  generalize m s = o at *
  cases o with
  | ok | err => exact ⟨h, h'⟩
  | panic => trivial

/-- A program that returns keeps `P` in its errors just when it is no bad case, if no bad case
succeeds and its errors keep `P` in the good ones only. -/
theorem Post.err_iff {P : σ → Prop} {bad : Prop}
    (h : Post m (fun _ _ => ¬bad) (fun _ s' => P s' ↔ ¬bad) s) (hreturns : m s ≠ .panic) :
    (∀ e s', m s = .err e s' → P s') ↔ ¬bad := by
  constructor
  · intro hkeeps
    cases hrun : m s with
    | ok a s' => exact h.ok hrun
    | err e s' => exact (h.err hrun).mp (hkeeps e s' hrun)
    | panic => exact absurd hrun hreturns
  · intro hgood e s' hrun
    exact (h.err hrun).mpr hgood

theorem post_congr {m' : Prog ε σ α} (h : m s = m' s) : Post m Q E s ↔ Post m' Q E s := by
  rw [Post, Post, h]

@[simp] theorem post_pure (a : α) : Post (pure a : Prog ε σ α) Q E s ↔ Q a s := Iff.rfl

@[simp] theorem post_fail (e : ε) : Post (fail e : Prog ε σ α) Q E s ↔ E e s := Iff.rfl

@[simp] theorem post_halt : Post (halt : Prog ε σ α) Q E s ↔ True := Iff.rfl

@[simp] theorem post_get {Q : σ → σ → Prop} : Post (get : Prog ε σ σ) Q E s ↔ Q s s := Iff.rfl

@[simp] theorem post_gets (f : σ → α) : Post (gets f : Prog ε σ α) Q E s ↔ Q (f s) s := Iff.rfl

@[simp] theorem post_modify (f : σ → σ) {Q : Unit → σ → Prop} :
    Post (modify f : Prog ε σ Unit) Q E s ↔ Q () (f s) := Iff.rfl

@[simp] theorem post_bind (m : Prog ε σ β) (f : β → Prog ε σ α) :
    Post (m >>= f) Q E s ↔ Post m (fun b s' => Post (f b) Q E s') E s := by
  unfold Post
  rw [bind_apply]
  cases m s <;> rfl

theorem Post.bind {m : Prog ε σ β} {R : β → σ → Prop} {f : β → Prog ε σ α} (h : Post m R E s)
    (hf : ∀ b s', R b s' → Post (f b) Q E s') : Post (m >>= f) Q E s := (post_bind m f).mpr (h.imp hf)

@[simp] theorem post_assert (c : Bool) {Q : Unit → σ → Prop} :
    Post (assert c : Prog ε σ Unit) Q E s ↔ (c = true → Q () s) := by
  cases c <;> simp [assert]

theorem post_ite (c : Prop) [Decidable c] (m m' : Prog ε σ α) :
    Post (if c then m else m') Q E s ↔ (c → Post m Q E s) ∧ (¬c → Post m' Q E s) := by
  by_cases hc : c <;> simp [hc]

@[simp] theorem post_when (c : Bool) (m : Prog ε σ Unit) {Q : Unit → σ → Prop} :
    Post (when c m) Q E s ↔ (c = true → Post m Q E s) ∧ (c = false → Q () s) := by
  cases c <;> simp [when]

@[simp] theorem post_unwrap (m : Prog ε σ α) : Post (unwrap m) Q E s ↔ Post m Q (fun _ _ => True) s := by
  unfold Post unwrap
  cases m s <;> rfl

@[simp] theorem post_attempt (m : Prog ε σ α) {Q : Except ε α → σ → Prop} :
    Post (attempt m) Q E s ↔ Post m (fun a => Q (.ok a)) (fun e => Q (.error e)) s := by
  unfold Post attempt
  cases m s <;> rfl

@[simp] theorem post_onError (handler : Prog ε σ Unit) (m : Prog ε σ α) :
    Post (onError handler m) Q E s ↔ Post m Q (fun e s' => Post handler (fun _ s'' => E e s'') E s') s := by
  unfold onError
  rw [post_bind, post_attempt]
  simp only [post_pure, post_bind, post_fail]

@[simp] theorem post_ofOption (e : ε) (o : Option α) :
    Post (ofOption e o : Prog ε σ α) Q E s ↔ (∀ a, o = some a → Q a s) ∧ (o = none → E e s) := by
  cases o <;> simp [ofOption]

@[simp] theorem post_ofExcept (r : Except ε α) :
    Post (ofExcept r : Prog ε σ α) Q E s ↔ (∀ a, r = .ok a → Q a s) ∧ (∀ e, r = .error e → E e s) := by
  cases r <;> simp [ofExcept]

@[simp] theorem post_zoom {τ : Type} (view : σ → τ) (put : σ → τ → σ) (m : Prog ε τ α) :
    Post (zoom view put m) Q E s ↔ Post m (fun a t => Q a (put s t)) (fun e t => E e (put s t)) (view s) := by
  unfold Post zoom
  cases m (view s) <;> rfl

/-- The invariant of a loop with an accumulator may speak of the elements gone through. -/
theorem post_foldEach_done {γ : Type} {I : List β → γ → σ → Prop} {f : γ → β → Prog ε σ γ} (xs done : List β) {acc : γ}
    (hf : ∀ front x rest acc s, done ++ xs = front ++ x :: rest → I front acc s →
      Post (f acc x) (I (front ++ [x])) E s)
    (hs : I done acc s) : Post (foldEach xs acc f) (I (done ++ xs)) E s := by
  induction xs generalizing done acc s with
  | nil => rwa [List.append_nil]
  | cons x rest ih =>
    rw [foldEach]
    apply (hf done x rest acc s rfl hs).bind
    intro acc' s' hs'
    rw [List.append_cons] at hf ⊢
    exact ih _ hf hs'

theorem post_foldEach {γ : Type} {I : γ → σ → Prop} (xs : List β) {f : γ → β → Prog ε σ γ} {acc : γ}
    (hf : ∀ x ∈ xs, ∀ acc s, I acc s → Post (f acc x) I E s) (hs : I acc s) :
    Post (foldEach xs acc f) I E s :=
  post_foldEach_done (I := fun _ => I) xs [] (fun front x rest acc s (hxs : xs = _) => hf x (by simp [hxs]) acc s) hs

theorem forEach_eq_foldEach (xs : List β) (f : β → Prog ε σ Unit) : forEach xs f = foldEach xs () fun _ => f := by
  induction xs with
  | nil => rfl
  | cons x rest ih => rw [forEach, foldEach, ih]

theorem post_forEach_done {I : List β → σ → Prop} {f : β → Prog ε σ Unit} (xs done : List β)
    (hf : ∀ front x rest s, done ++ xs = front ++ x :: rest → I front s →
      Post (f x) (fun _ => I (front ++ [x])) E s)
    (hs : I done s) : Post (forEach xs f) (fun _ => I (done ++ xs)) E s := by
  rw [forEach_eq_foldEach]
  exact post_foldEach_done (I := fun done _ => I done) xs done
    (fun front x rest _ => hf front x rest) hs

theorem post_forEach {I : σ → Prop} (xs : List β) {f : β → Prog ε σ Unit}
    (hf : ∀ x ∈ xs, ∀ s, I s → Post (f x) (fun _ => I) E s) (hs : I s) :
    Post (forEach xs f) (fun _ => I) E s := by
  rw [forEach_eq_foldEach]
  exact post_foldEach (I := fun _ => I) xs (fun x hx _ => hf x hx) hs

end Rules

end Prog

namespace Prog

variable {ε σ α β : Type}

/-- The program returns, with a value of which `Q` holds or with an error of which `E` holds. -/
def Total (m : Prog ε σ α) (Q : α → σ → Prop) (E : ε → σ → Prop) (s : σ) : Prop :=
  match m s with
  | .ok a s' => Q a s'
  | .err e s' => E e s'
  | .panic => False

variable {Q Q' : α → σ → Prop} {E E' : ε → σ → Prop} {s : σ}

variable {m : Prog ε σ α}

theorem Total.mono (h : Total m Q E s) (hQ : ∀ a s', Q a s' → Q' a s')
    (hE : ∀ e s', E e s' → E' e s') : Total m Q' E' s := by
  unfold Total at *
  cases hrun : m s with
  | ok a s' => exact hQ a s' (by rwa [hrun] at h)
  | err e s' => exact hE e s' (by rwa [hrun] at h)
  | panic => rwa [hrun] at h

theorem Total.imp (h : Total m Q E s) (hQ : ∀ a s', Q a s' → Q' a s') : Total m Q' E s :=
  h.mono hQ fun _ _ he => he

theorem Total.post (h : Total m Q E s) : Post m Q E s := by
  unfold Total at h
  unfold Post
  cases hrun : m s with
  | panic => trivial
  | _ => rwa [hrun] at h

theorem Total.ne_panic (h : Total m Q E s) : m s ≠ .panic := by
  intro hrun
  rwa [Total, hrun] at h

theorem Total.exists_ok (h : Total m Q (fun _ _ => False) s) : ∃ a s', m s = .ok a s' ∧ Q a s' := by
  cases hrun : m s with
  | ok a s' => exact ⟨a, s', rfl, h.post.ok hrun⟩
  | err e s' => exact (h.post.err hrun).elim
  | panic => exact absurd hrun h.ne_panic

theorem total_of_ok {a : α} {s' : σ} (h : m s = .ok a s') : Total m Q E s ↔ Q a s' := by
  rw [Total, h]

@[simp] theorem total_pure (a : α) : Total (pure a : Prog ε σ α) Q E s ↔ Q a s := Iff.rfl

@[simp] theorem total_fail (e : ε) : Total (fail e : Prog ε σ α) Q E s ↔ E e s := Iff.rfl

@[simp] theorem total_halt : Total (halt : Prog ε σ α) Q E s ↔ False := Iff.rfl

@[simp] theorem total_get {Q : σ → σ → Prop} : Total (get : Prog ε σ σ) Q E s ↔ Q s s := Iff.rfl

@[simp] theorem total_gets (f : σ → α) : Total (gets f : Prog ε σ α) Q E s ↔ Q (f s) s := Iff.rfl

@[simp] theorem total_modify (f : σ → σ) {Q : Unit → σ → Prop} :
    Total (modify f : Prog ε σ Unit) Q E s ↔ Q () (f s) := Iff.rfl

@[simp] theorem total_bind (m : Prog ε σ β) (f : β → Prog ε σ α) :
    Total (m >>= f) Q E s ↔ Total m (fun b s' => Total (f b) Q E s') E s := by
  unfold Total
  rw [bind_apply]
  cases m s <;> rfl

theorem Total.bind {m : Prog ε σ β} {R : β → σ → Prop} {f : β → Prog ε σ α} (h : Total m R E s)
    (hf : ∀ b s', R b s' → Total (f b) Q E s') : Total (m >>= f) Q E s := (total_bind m f).mpr (h.imp hf)

@[simp] theorem total_assert (c : Bool) {Q : Unit → σ → Prop} :
    Total (assert c : Prog ε σ Unit) Q E s ↔ c = true ∧ Q () s := by
  cases c <;> simp [assert]

theorem total_ite (c : Prop) [Decidable c] (m m' : Prog ε σ α) :
    Total (if c then m else m') Q E s ↔ (c → Total m Q E s) ∧ (¬c → Total m' Q E s) := by
  by_cases hc : c <;> simp [hc]

@[simp] theorem total_when (c : Bool) (m : Prog ε σ Unit) {Q : Unit → σ → Prop} :
    Total (when c m) Q E s ↔ (c = true → Total m Q E s) ∧ (c = false → Q () s) := by
  cases c <;> simp [when]

@[simp] theorem total_attempt (m : Prog ε σ α) {Q : Except ε α → σ → Prop} :
    Total (attempt m) Q E s ↔ Total m (fun a => Q (.ok a)) (fun e => Q (.error e)) s := by
  unfold Total attempt
  cases m s <;> rfl

@[simp] theorem total_unwrap (m : Prog ε σ α) : Total (unwrap m) Q E s ↔ Total m Q (fun _ _ => False) s := by
  unfold Total unwrap
  cases m s <;> rfl

@[simp] theorem total_ofOption (e : ε) (o : Option α) :
    Total (ofOption e o : Prog ε σ α) Q E s ↔ (∀ a, o = some a → Q a s) ∧ (o = none → E e s) := by
  cases o <;> simp [ofOption]

@[simp] theorem total_ofExcept (r : Except ε α) :
    Total (ofExcept r : Prog ε σ α) Q E s ↔ (∀ a, r = .ok a → Q a s) ∧ (∀ e, r = .error e → E e s) := by
  cases r <;> simp [ofExcept]

end Prog

namespace Prog

variable {ε σ α β : Type} {I : σ → Prop}

/-- The program keeps the predicate. -/
def Keeps (I : σ → Prop) (m : Prog ε σ α) : Prop :=
  ∀ s, I s → Post m (fun _ => I) (fun _ => I) s

theorem Keeps.pure (a : α) : Keeps I (Pure.pure a : Prog ε σ α) := fun _ hs => hs

theorem Keeps.fail (e : ε) : Keeps I (fail e : Prog ε σ α) := fun _ hs => hs

theorem Keeps.halt : Keeps I (halt : Prog ε σ α) := fun _ _ => trivial

theorem Keeps.get : Keeps I (get : Prog ε σ σ) := fun _ hs => hs

theorem Keeps.gets (f : σ → α) : Keeps I (gets f : Prog ε σ α) := fun _ hs => hs

theorem Keeps.modify {f : σ → σ} (hf : ∀ s, I s → I (f s)) : Keeps I (modify f : Prog ε σ Unit) :=
  fun s hs => hf s hs

theorem Keeps.assert (c : Bool) : Keeps I (assert c : Prog ε σ Unit) := by
  intro s hs
  rw [post_assert]
  exact fun _ => hs

theorem Keeps.ofOption (e : ε) (o : Option α) : Keeps I (ofOption e o : Prog ε σ α) := by
  intro s hs
  rw [post_ofOption]
  exact ⟨fun _ _ => hs, fun _ => hs⟩

theorem Keeps.ofExcept (r : Except ε α) : Keeps I (ofExcept r : Prog ε σ α) := by
  intro s hs
  rw [post_ofExcept]
  exact ⟨fun _ _ => hs, fun _ _ => hs⟩

theorem Keeps.bind {m : Prog ε σ β} {f : β → Prog ε σ α} (hm : Keeps I m)
    (hf : ∀ b, Keeps I (f b)) : Keeps I (m >>= f) := by
  intro s hs
  exact (hm s hs).bind fun b s' hs' => hf b s' hs'

theorem Keeps.bind_gets {f : σ → β} {g : β → Prog ε σ α}
    (hg : ∀ s, I s → Leaves (g (f s)) I s) : Keeps I (Prog.gets f >>= g) := by
  intro s hs
  rw [post_bind, post_gets]
  exact hg s hs

theorem Keeps.ite (c : Prop) [Decidable c] {m m' : Prog ε σ α} (hm : Keeps I m)
    (hm' : Keeps I m') : Keeps I (if c then m else m') := by
  split
  · exact hm
  · exact hm'

theorem Keeps.when (c : Bool) {m : Prog ε σ Unit} (hm : Keeps I m) : Keeps I (when c m) := by
  cases c with
  | true => exact hm
  | false => exact .pure ()

theorem Keeps.unwrap {m : Prog ε σ α} (hm : Keeps I m) : Keeps I (unwrap m) := by
  intro s hs
  rw [post_unwrap]
  exact (hm s hs).weaken

theorem Keeps.attempt {m : Prog ε σ α} (hm : Keeps I m) : Keeps I (attempt m) := by
  intro s hs
  rw [post_attempt]
  exact hm s hs

theorem Keeps.forEach (xs : List β) {f : β → Prog ε σ Unit} (hf : ∀ x, Keeps I (f x)) :
    Keeps I (forEach xs f) := fun _ hs => post_forEach xs (fun x _ s hs => hf x s hs) hs

theorem Keeps.forEach_mem (xs : List β) {f : β → Prog ε σ Unit} (hf : ∀ x ∈ xs, Keeps I (f x)) :
    Keeps I (Prog.forEach xs f) := fun _ hs => post_forEach xs (fun x hx s hs => hf x hx s hs) hs

theorem Keeps.foldEach {γ : Type} (xs : List β) (acc : γ) {f : γ → β → Prog ε σ γ}
    (hf : ∀ acc x, Keeps I (f acc x)) : Keeps I (foldEach xs acc f) :=
  fun _ hs => post_foldEach xs (fun x _ acc s hs => hf acc x s hs) hs

theorem Keeps.zoom {τ : Type} {J : σ → τ → Prop} {view : σ → τ} {put : σ → τ → σ}
    {m : Prog ε τ α} (hm : ∀ s, I s → Keeps (J s) m) (hview : ∀ s, I s → J s (view s))
    (hput : ∀ s t, I s → J s t → I (put s t)) : Keeps I (zoom view put m) := by
  intro s hs
  rw [post_zoom]
  exact (hm s hs (view s) (hview s hs)).both fun t ht => hput s t hs ht

theorem Keeps.then_fail {m : Prog ε σ β} (hm : Keeps I m) {e : ε} {Q : α → σ → Prop} {s : σ}
    (hs : I s) : Post (m >>= fun _ => Prog.fail e) Q (fun _ => I) s := by
  exact (hm s hs).bind fun _ _ h => h

end Prog
