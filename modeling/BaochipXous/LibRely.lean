import Mathlib.Tactic

/-!
Runs of labelled transition systems and of services that are interrupted between any two atomic
actions. What a thread guarantees is a condition on the state in which each action is taken, proved
against the interrupts alone; the runs of a service are runs of its actions and interrupts with
those conditions known.
-/

namespace Labelled

variable {σ ε μ : Type}

/-- A finite run with the labels of its steps, the last step last. -/
inductive Run (step : σ → ε → σ → Prop) (start : σ) : List ε → σ → Prop where
  | nil : Run step start [] start
  | snoc {es : List ε} {s s' : σ} {e : ε} :
      Run step start es s → step s e s' → Run step start (es ++ [e]) s'

variable {step : σ → ε → σ → Prop} {start s : σ} {es : List ε}

theorem Run.cons {s1 : σ} {e : ε} (hfirst : step start e s1) (run : Run step s1 es s) : Run step start (e :: es) s := by
  induction run with
  | nil => exact .snoc .nil hfirst
  | snoc _ hlast ih => exact .snoc ih hlast

theorem Run.mono {step' : σ → ε → σ → Prop} (run : Run step start es s)
    (hstep : ∀ s e s', step s e s' → step' s e s') : Run step' start es s := by
  induction run with
  | nil => exact .nil
  | snoc _ hlast ih => exact .snoc ih (hstep _ _ _ hlast)

/-- What the start has and each step keeps holds after a run. -/
theorem Run.invariant {I : σ → Prop} (run : Run step start es s) (hstart : I start)
    (hstep : ∀ s e s', I s → step s e s' → I s') : I s := by
  induction run with
  | nil => exact hstart
  | snoc _ hlast ih => exact hstep _ _ _ ih hlast

theorem Run.history_invariant {I : List ε → σ → Prop} (run : Run step start es s)
    (hstart : I [] start) (hstep : ∀ es s e s', I es s → step s e s' → I (es ++ [e]) s') : I es s := by
  induction run with
  | nil => exact hstart
  | snoc _ hlast ih => exact hstep _ _ _ _ ih hlast

/-- A run is matched by a fold of the abstract step. -/
theorem Run.simulation {R : σ → μ → Prop} {f : μ → ε → μ} {m : μ} (run : Run step start es s)
    (hstart : R start m) (hstep : ∀ s m e s', R s m → step s e s' → R s' (f m e)) : R s (es.foldl f m) := by
  induction run with
  | nil => exact hstart
  | snoc _ hlast ih =>
    rw [List.foldl_append]
    exact hstep _ _ _ _ ih hlast

theorem Run.of_foldlM {f : σ → ε → Option σ} (hf : ∀ s e s', f s e = some s' → step s e s')
    (h : es.foldlM f start = some s) : Run step start es s := by
  induction es generalizing start with
  | nil =>
    cases h
    exact .nil
  | cons e es ih =>
    rw [List.foldlM_cons] at h
    obtain ⟨next, hnext, hrest⟩ := Option.bind_eq_some_iff.mp h
    exact (ih hrest).cons (hf _ _ _ hnext)

end Labelled

namespace Interleaved

variable {A σ ι μ α β : Type}

/-- A program of atomic actions. What follows an action is chosen by the state it was taken in. -/
inductive Thread (A σ α : Type) where
  | ret (value : α)
  | act (action : A) (next : σ → Thread A σ α)

namespace Thread

def bind : Thread A σ α → (α → Thread A σ β) → Thread A σ β
  | ret value, k => k value
  | act action next, k => act action fun s => (next s).bind k

instance : Monad (Thread A σ) where
  pure := ret
  bind := bind

def take (action : A) : Thread A σ Unit :=
  act action fun _ => ret ()

/-- Take one action and keep what `f` reads in the state before it. -/
def observe (action : A) (f : σ → α) : Thread A σ α :=
  act action fun s => ret (f s)

end Thread

/-- A service: what its actions and the interrupts do to the state, and the thread that handles a
message. -/
structure Service (A σ ι μ : Type) where
  perform : A → σ → σ
  interrupt : ι → σ → σ
  turn : μ → Thread A σ Unit

/-- What happens in one step. -/
inductive Label (A ι μ : Type) where
  | receive (message : μ)
  | act (action : A)
  | interrupt (cause : ι)
  deriving DecidableEq

/-- The state and what is left of the thread that runs; a finished thread waits for a message. -/
structure Config (A σ : Type) where
  state : σ
  rest : Thread A σ Unit

/-- The action that is taken next. -/
def Config.next (c : Config A σ) : Option A :=
  match c.rest with
  | .ret _ => none
  | .act a _ => some a

namespace Service

variable (V : Service A σ ι μ)

inductive Step : Config A σ → Label A ι μ → Config A σ → Prop where
  | receive (s : σ) (m : μ) : Step ⟨s, .ret ()⟩ (.receive m) ⟨s, V.turn m⟩
  | act (s : σ) (a : A) (next : σ → Thread A σ Unit) :
      Step ⟨s, .act a next⟩ (.act a) ⟨V.perform a s, next s⟩
  | interrupt (s : σ) (i : ι) (rest : Thread A σ Unit) :
      Step ⟨s, rest⟩ (.interrupt i) ⟨V.interrupt i s, rest⟩

/-- Runs of the service from a state in which it waits, all of whose steps meet a condition. -/
def Walk (ok : σ → Label A ι μ → Prop) (start : σ) : List (Label A ι μ) → Config A σ → Prop :=
  Labelled.Run (fun c l c' => V.Step c l c' ∧ ok c.state l) ⟨start, .ret ()⟩

/-- The step that a label names, if the service can take it. -/
def step [DecidableEq A] (c : Config A σ) : Label A ι μ → Option (Config A σ)
  | .receive m =>
    match c.rest with
    | .ret _ => some ⟨c.state, V.turn m⟩
    | .act _ _ => none
  | .act a =>
    match c.rest with
    | .ret _ => none
    | .act b next => if a = b then some ⟨V.perform b c.state, next c.state⟩ else none
  | .interrupt i => some ⟨V.interrupt i c.state, c.rest⟩

/-- The steps that a list of labels names, in order, as long as they meet a condition. -/
def walk [DecidableEq A] (ok : σ → Label A ι μ → Prop) [∀ s l, Decidable (ok s l)]
    (c : Config A σ) (ls : List (Label A ι μ)) : Option (Config A σ) :=
  ls.foldlM (fun c l => if ok c.state l then V.step c l else none) c

variable {V}

variable {c : Config A σ}

theorem Step.of_step [DecidableEq A] {c' : Config A σ} {l : Label A ι μ} (h : V.step c l = some c') : V.Step c l c' := by
  obtain ⟨s, rest⟩ := c
  cases l with
  | receive m =>
    cases rest with
    | ret value =>
      cases h
      exact .receive s m
    | act a next => cases h
  | act a =>
    cases rest with
    | ret value => cases h
    | act b next =>
      by_cases hab : a = b
      · simp only [step, hab, if_true, Option.some.injEq] at h
        subst h hab
        exact .act s a next
      · simp [step, hab] at h
  | interrupt i =>
    cases h
    exact .interrupt s i rest

theorem rest_of_next {a : A} (h : c.next = some a) : ∃ next, c.rest = .act a next := by
  unfold Config.next at h
  split at h
  · cases h
  · rename_i next hrest
    cases h
    exact ⟨next, hrest⟩

theorem rest_of_next_none (h : c.next = none) : c.rest = .ret () := by
  unfold Config.next at h
  split at h
  · assumption
  · cases h

variable {start : σ} {ls : List (Label A ι μ)}

variable {ok : σ → Label A ι μ → Prop}

theorem Walk.of_walk [DecidableEq A] [∀ s l, Decidable (ok s l)]
    (h : V.walk ok ⟨start, .ret ()⟩ ls = some c) : V.Walk ok start ls c := by
  induction ls using List.reverseRecOn generalizing c with
  | nil =>
    cases h
    exact .nil
  | append_singleton ls l ih =>
    rw [walk, List.foldlM_append, Option.bind_eq_bind, Option.bind_eq_some_iff] at h
    obtain ⟨before, hbefore, hlast⟩ := h
    rw [List.foldlM_cons, Option.bind_eq_bind, Option.bind_eq_some_iff] at hlast
    obtain ⟨after, hstep, hafter⟩ := hlast
    cases hafter
    split at hstep
    · rename_i hok
      exact .snoc (ih hbefore) ⟨.of_step hstep, hok⟩
    · cases hstep

variable {s : σ}

theorem Walk.receive {m : μ} (walk : V.Walk ok start ls ⟨s, .ret ()⟩) (hok : ok s (.receive m)) :
    V.Walk ok start (ls ++ [.receive m]) ⟨s, V.turn m⟩ := .snoc walk ⟨.receive s m, hok⟩

theorem Walk.act {a : A} {next : σ → Thread A σ Unit}
    (walk : V.Walk ok start ls ⟨s, .act a next⟩) (hok : ok s (.act a)) : V.Walk ok start (ls ++ [.act a]) ⟨V.perform a s, next s⟩ :=
  .snoc walk ⟨.act s a next, hok⟩

section Guarantee

variable (V) (ok : σ → ι → Prop) (pre : A → σ → Prop)

/-- What the admitted interrupts can do between two actions. -/
def Rely (s s' : σ) : Prop :=
  Relation.ReflTransGen (fun s s' => ∃ i, ok s i ∧ s' = V.interrupt i s) s s'

/-- Whatever the admitted interrupts do, every action is taken in a state that meets its
precondition, and the thread ends in `Q`. -/
def Guarantees : Thread A σ α → (α → σ → Prop) → σ → Prop
  | .ret value, Q, s => Q value s
  | .act a next, Q, s =>
    ∀ s', V.Rely ok s s' → pre a s' ∧ Guarantees (next s') Q (V.perform a s')

variable {V ok pre}

variable (V ok) in
/-- No admitted interrupt breaks the assertion. -/
abbrev Stable (P : σ → Prop) : Prop := ∀ s i, P s → ok s i → P (V.interrupt i s)

variable {P : σ → Prop} {s : σ}

theorem Rely.keeps (stable : V.Stable ok P) {s' : σ} (hrely : V.Rely ok s s') (hs : P s) : P s' := by
  induction hrely with
  | refl => exact hs
  | tail _ hstep ih =>
    obtain ⟨i, hi, rfl⟩ := hstep
    exact stable _ i ih hi

variable {a : A} {Q : α → σ → Prop}

/-- The rule for one action: an assertion that the interrupts keep is chosen for the point before
it. -/
theorem Guarantees.act {next : σ → Thread A σ α} (stable : V.Stable ok P) (hs : P s)
    (hnext : ∀ s, P s → pre a s ∧ V.Guarantees ok pre (next s) Q (V.perform a s)) :
    V.Guarantees ok pre (.act a next) Q s := fun s' hrely => hnext s' (hrely.keeps stable hs)

variable {p : Thread A σ α}

theorem Guarantees.mono {Q' : α → σ → Prop} (h : V.Guarantees ok pre p Q s)
    (himp : ∀ a s, Q a s → Q' a s) : V.Guarantees ok pre p Q' s := by
  induction p generalizing s with
  | ret value => exact himp _ _ h
  | act a next ih => exact fun s' hrely => ⟨(h s' hrely).1, ih s' (h s' hrely).2⟩

theorem guarantees_bind {k : α → Thread A σ β} {Q : β → σ → Prop} :
    V.Guarantees ok pre (p >>= k) Q s ↔ V.Guarantees ok pre p (fun a s => V.Guarantees ok pre (k a) Q s) s := by
  induction p generalizing s with
  | ret value => rfl
  | act a next ih =>
    constructor
    · exact fun h s' hrely => ⟨(h s' hrely).1, (ih s').mp (h s' hrely).2⟩
    · exact fun h s' hrely => ⟨(h s' hrely).1, (ih s').mpr (h s' hrely).2⟩

theorem Guarantees.bind {k : α → Thread A σ β} {Q' : β → σ → Prop}
    (h : V.Guarantees ok pre p Q s) (hk : ∀ a s, Q a s → V.Guarantees ok pre (k a) Q' s) :
    V.Guarantees ok pre (p >>= k) Q' s := guarantees_bind.mpr (h.mono hk)

theorem Guarantees.pure {a : α} (h : Q a s) : V.Guarantees ok pre (Pure.pure a) Q s := h

theorem Guarantees.take {Q : Unit → σ → Prop} (stable : V.Stable ok P) (hs : P s)
    (hnext : ∀ s, P s → pre a s ∧ Q () (V.perform a s)) : V.Guarantees ok pre (.take a) Q s :=
  .act stable hs hnext

theorem Guarantees.observe {f : σ → α} (stable : V.Stable ok P) (hs : P s)
    (hnext : ∀ s, P s → pre a s ∧ Q (f s) (V.perform a s)) :
    V.Guarantees ok pre (.observe a f) Q s := .act stable hs hnext

theorem Guarantees.interrupt {p : Thread A σ Unit} {J : σ → Prop} {i : ι} (stable : V.Stable ok J) (hi : ok s i)
    (h : V.Guarantees ok pre p (fun _ => J) s) : V.Guarantees ok pre p (fun _ => J) (V.interrupt i s) := by
  cases p with
  | ret value => exact stable s i h hi
  | act a next => exact fun s' hrely => h s' (.head ⟨i, hi, rfl⟩ hrely)

end Guarantee

variable {pre : A → σ → Prop}

theorem Walk.finish {okI : σ → ι → Prop}
    {p : Thread A σ α} {k : α → Thread A σ Unit} {Q : α → σ → Prop} (hok : ∀ s a, ok s (.act a))
    (h : V.Guarantees okI pre p Q s) (walk : V.Walk ok start ls ⟨s, p >>= k⟩) :
    ∃ (acts : List A) (a : α), V.Walk ok start (ls ++ acts.map .act)
        ⟨acts.foldl (fun s a => V.perform a s) s, k a⟩ ∧ Q a (acts.foldl (fun s a => V.perform a s) s) := by
  induction p generalizing s ls with
  | ret value =>
    refine ⟨[], value, ?_, h⟩
    rw [List.map_nil, List.append_nil]
    exact walk
  | act a next ih =>
    obtain ⟨acts, b, hwalk, hQ⟩ := ih s (h s .refl).2 (act walk (hok s a))
    exact ⟨a :: acts, b, by simpa using hwalk, hQ⟩

/-- A step of the service as a change of the state alone, with what is known of it. -/
def Effect (V : Service A σ ι μ) (ok : σ → Label A ι μ → Prop) (pre : A → σ → Prop) (s : σ)
    (l : Label A ι μ) (s' : σ) : Prop :=
  ok s l ∧
    match l with
    | .receive _ => s' = s
    | .act a => pre a s ∧ s' = V.perform a s
    | .interrupt i => s' = V.interrupt i s

/-- The runs of a service whose turns keep their guarantees, between two messages in `J`, are runs
of its effects. -/
theorem Walk.effects {J : σ → Prop} (stable : ∀ s i, J s → ok s (.interrupt i) → J (V.interrupt i s))
    (turns : ∀ m s, J s → ok s (.receive m) →
      V.Guarantees (fun s i => ok s (.interrupt i)) pre (V.turn m) (fun _ => J) s)
    (walk : V.Walk ok start ls c) (hstart : J start) :
    Labelled.Run (V.Effect ok pre) start ls c.state ∧
      V.Guarantees (fun s i => ok s (.interrupt i)) pre c.rest (fun _ => J) c.state := by
  induction walk with
  | nil => exact ⟨.nil, hstart⟩
  | snoc _ hlast ih =>
    obtain ⟨run, hrest⟩ := ih
    obtain ⟨hstep, hok⟩ := hlast
    cases hstep with
    | receive s m => exact ⟨.snoc run ⟨hok, rfl⟩, turns m s hrest hok⟩
    | act s a next =>
      obtain ⟨hpre, hnext⟩ := hrest s .refl
      exact ⟨.snoc run ⟨hok, hpre, rfl⟩, hnext⟩
    | interrupt s i rest => exact ⟨.snoc run ⟨hok, rfl⟩, hrest.interrupt stable hok⟩

theorem Effect.invariant {I : σ → Prop} (run : Labelled.Run (V.Effect ok pre) start ls s) (hstart : I start)
    (hact : ∀ s a, I s → ok s (.act a) → pre a s → I (V.perform a s))
    (hinterrupt : ∀ s i, I s → ok s (.interrupt i) → I (V.interrupt i s)) : I s := by
  refine run.invariant hstart fun s l s' hs hstep => ?_
  obtain ⟨hok, heffect⟩ := hstep
  cases l with
  | receive m => exact heffect ▸ hs
  | act a => exact heffect.2 ▸ hact s a hs hok heffect.1
  | interrupt i => exact heffect ▸ hinterrupt s i hs hok

end Service

end Interleaved
