import Mathlib.Data.List.Basic

/-!
# Programs that change a state and may fail

A program runs from a state to a result and a state; a failure keeps what was already done,
as a C function that returns an error code does. `Triple` is the usual triple with a second
postcondition, for failures, and the rules below are one for each way to build a program.
-/

namespace ZephyrOS.Lib

variable {σ ε α β : Type} {r : Except ε α} {ε' : Type}

def Program (σ ε α : Type) : Type := σ → Except ε α × σ

namespace Program

protected def pure (a : α) : Program σ ε α := fun s => (.ok a, s)

protected def bind (x : Program σ ε α) (f : α → Program σ ε β) : Program σ ε β := fun s =>
  match x s with
  | (.ok a, s') => f a s'
  | (.error e, s') => (.error e, s')

instance : Monad (Program σ ε) where
  pure := Program.pure
  bind := Program.bind

def fail (e : ε) : Program σ ε α := fun s => (.error e, s)

def read (f : σ → α) : Program σ ε α := fun s => (.ok (f s), s)

def modify (f : σ → σ) : Program σ ε Unit := fun s => (.ok (), f s)

/-- Fail with `e` unless `c` holds. -/
def ensure (c : Prop) [Decidable c] (e : ε) : Program σ ε Unit := if c then pure () else fail e

/-- A result computed elsewhere. -/
def lift (r : Except ε α) : Program σ ε α := fun s => (r, s)

/-- Report failures differently. -/
def mapError {ε' : Type} (f : ε → ε') (x : Program σ ε α) : Program σ ε' α :=
  fun s => ((x s).1.mapError f, (x s).2)

/-- Run a program and hand on its result, failure or not. -/
def attempt (x : Program σ ε α) : Program σ ε (Except ε α) := fun s => (.ok (x s).1, (x s).2)

/-- The program for every element, in order. -/
def forEach (f : α → Program σ ε Unit) : List α → Program σ ε Unit
  | [] => pure ()
  | a :: as => do
    f a
    forEach f as

/-- The program for every element, in order, and the results. -/
def collect (f : α → Program σ ε β) : List α → Program σ ε (List β)
  | [] => pure []
  | a :: as => do
    let b ← f a
    let bs ← collect f as
    pure (b :: bs)

/-! ### Running -/

variable {s : σ} {x : Program σ ε α} {f : α → Program σ ε β} {s' : σ} {a : α} {c : Prop} {e : ε} {b : β}
  {as : List α}

@[simp] theorem run_pure (a : α) : (pure a : Program σ ε α) s = (.ok a, s) := rfl

@[simp] theorem run_read (f : σ → α) : (read f : Program σ ε α) s = (.ok (f s), s) := rfl

@[simp] theorem run_lift : (lift r : Program σ ε α) s = (r, s) := rfl

@[simp] theorem run_attempt : attempt x s = (.ok (x s).1, (x s).2) := rfl

theorem run_bind (f : α → Program σ ε β) :
    (x >>= f) s = match x s with
      | (.ok a, s') => f a s'
      | (.error e, s') => (.error e, s') := rfl

theorem run_bind_ok (h : x s = (.ok a, s')) : (x >>= f) s = f a s' := by
  rw [run_bind, h]

theorem run_bind_error (h : x s = (.error e, s')) : (x >>= f) s = (.error e, s') := by
  rw [run_bind, h]

theorem run_ensure_pos [Decidable c] (h : c) : (ensure c e : Program σ ε Unit) s = (.ok (), s) := by
  rw [ensure, if_pos h]
  rfl

theorem run_ensure_neg [Decidable c] (h : ¬ c) :
    (ensure c e : Program σ ε Unit) s = (.error e, s) := by
  rw [ensure, if_neg h]
  rfl

/-! ### A success, backwards -/

theorem bind_eq_ok : (x >>= f) s = (.ok b, s') ↔ ∃ a t, x s = (.ok a, t) ∧ f a t = (.ok b, s') := by
  rw [run_bind]
  rcases x s with ⟨e | a, t⟩
  · exact ⟨nofun, fun ⟨_, _, h, _⟩ => nomatch h⟩
  refine ⟨fun h => ⟨a, t, rfl, h⟩, ?_⟩
  rintro ⟨a', t', h, h'⟩
  cases h
  exact h'

theorem pure_eq_ok {b : α} : (pure a : Program σ ε α) s = (.ok b, s') ↔ a = b ∧ s = s' := by
  rw [run_pure]
  refine ⟨fun h => ?_, fun h => by rw [h.1, h.2]⟩
  cases h
  exact ⟨rfl, rfl⟩

theorem lift_eq_ok : (lift r : Program σ ε α) s = (.ok a, s') ↔ r = .ok a ∧ s = s' := by
  rw [run_lift, Prod.mk.injEq]

theorem lift_bind_eq_ok :
    (lift r >>= f) s = (.ok b, s') ↔ ∃ a, r = .ok a ∧ f a s = (.ok b, s') := by
  cases r with
  | error e => exact ⟨nofun, fun ⟨_, h, _⟩ => nomatch h⟩
  | ok a => exact ⟨fun h => ⟨a, rfl, h⟩, fun ⟨_, h, h'⟩ => by cases h; exact h'⟩

theorem mapError_eq_ok {f : ε → ε'} : mapError f x s = (.ok a, s') ↔ x s = (.ok a, s') := by
  rw [mapError]
  rcases x s with ⟨e | b, t⟩
  · exact ⟨nofun, nofun⟩
  · exact ⟨fun h => by cases h; rfl, fun h => by cases h; rfl⟩

theorem ensure_eq_ok [Decidable c] {u : Unit} :
    (ensure c e : Program σ ε Unit) s = (.ok u, s') ↔ c ∧ s = s' := by
  by_cases hc : c
  · rw [run_ensure_pos hc]
    exact ⟨fun h => ⟨hc, (Prod.mk.inj h).2⟩, fun h => by rw [h.2]⟩
  · rw [run_ensure_neg hc]
    exact ⟨nofun, fun h => absurd h.1 hc⟩

/-- What every step gives from a state with the invariant, all of them give. -/
theorem collect_eq_ok {I : σ → Prop} {R : α → β → Prop}
    (h : ∀ a b s s', I s → f a s = (.ok b, s') → I s' ∧ R a b) :
    ∀ {bs : List β} {s s' : σ}, I s → collect f as s = (.ok bs, s') →
      I s' ∧ List.Forall₂ R as bs := by
  induction as with
  | nil =>
    intro bs s s' hs hrun
    obtain ⟨rfl, rfl⟩ := pure_eq_ok.mp hrun
    exact ⟨hs, .nil⟩
  | cons a as ih =>
    intro bs s s' hs hrun
    obtain ⟨b, t, hf, hrun⟩ := bind_eq_ok.mp hrun
    obtain ⟨ht, hR⟩ := h a b s t hs hf
    obtain ⟨bs', u, hcollect, hrun⟩ := bind_eq_ok.mp hrun
    obtain ⟨hu, hall⟩ := ih ht hcollect
    obtain ⟨rfl, rfl⟩ := pure_eq_ok.mp hrun
    exact ⟨hu, .cons hR hall⟩

theorem forEach_eq_ok {R : α → Prop} {f : α → Program σ ε Unit}
    (h : ∀ a s s', f a s = (.ok (), s') → R a) :
    ∀ {s s' : σ}, forEach f as s = (.ok (), s') → ∀ a ∈ as, R a := by
  induction as with
  | nil => intro s s' _ a ha; cases ha
  | cons a as ih =>
    intro s s' hrun
    obtain ⟨_, t, hf, hrun⟩ := bind_eq_ok.mp hrun
    exact List.forall_mem_cons.mpr ⟨h a s t hf, ih hrun⟩

end Program

/-! ### Triples -/

/-- A postcondition for success and one for failure, of an outcome. -/
def Outcome (Q : α → σ → Prop) (E : ε → σ → Prop) : Except ε α × σ → Prop
  | (.ok a, s) => Q a s
  | (.error e, s) => E e s

structure Triple (P : σ → Prop) (x : Program σ ε α) (Q : α → σ → Prop) (E : ε → σ → Prop) : Prop where
  run : ∀ s, P s → Outcome Q E (x s)

namespace Triple

variable {P P' : σ → Prop} {Q Q' : α → σ → Prop} {R : β → σ → Prop} {E F : ε → σ → Prop} {e : ε}
  {f : α → Program σ ε β} {x : Program σ ε α} {c : Prop} {I : List α → σ → Prop}

theorem pure {a : α} (h : ∀ s, P s → Q a s) : Triple P (pure a) Q E := ⟨h⟩

theorem fail (h : ∀ s, P s → E e s) : Triple P (Program.fail e) Q E := ⟨h⟩

theorem modify {f : σ → σ} {Q : Unit → σ → Prop} (h : ∀ s, P s → Q () (f s)) :
    Triple P (Program.modify f) Q E := ⟨h⟩

theorem read {f : σ → α} (h : ∀ s, P s → Q (f s) s) : Triple P (Program.read f) Q E := ⟨h⟩

theorem bind (hx : Triple P x Q E) (hf : ∀ a, Triple (Q a) (f a) R E) : Triple P (x >>= f) R E := by
  refine ⟨fun s hs => ?_⟩
  have h := hx.run s hs
  rw [Program.run_bind]
  generalize x s = o at h ⊢
  rcases o with ⟨e | a, s'⟩
  · exact h
  · exact (hf a).run s' h

/-- What was read is known from there on. -/
theorem read_bind {f : σ → α} {g : α → Program σ ε β}
    (h : ∀ a, Triple (fun s => P s ∧ f s = a) (g a) R E) : Triple P (Program.read f >>= g) R E :=
  ⟨fun s hs => (h (f s)).run s ⟨hs, rfl⟩⟩

theorem ite [Decidable c] {y : Program σ ε α} (hx : c → Triple P x Q E)
    (hy : ¬ c → Triple P y Q E) : Triple P (if c then x else y) Q E := by
  by_cases h : c
  · rw [if_pos h]; exact hx h
  · rw [if_neg h]; exact hy h

theorem ensure [Decidable c] {Q : Unit → σ → Prop} (hok : c → ∀ s, P s → Q () s)
    (herr : ¬ c → ∀ s, P s → E e s) : Triple P (Program.ensure c e) Q E :=
  ite (fun h => .pure (hok h)) (fun h => .fail (herr h))

theorem lift (hok : ∀ a, r = .ok a → ∀ s, P s → Q a s)
    (herr : ∀ e, r = .error e → ∀ s, P s → E e s) : Triple P (Program.lift r) Q E := by
  refine ⟨fun s hs => ?_⟩
  cases r with
  | ok a => exact hok a rfl s hs
  | error e => exact herr e rfl s hs

theorem attempt {Q : Except ε α → σ → Prop}
    (h : Triple P x (fun a s => Q (.ok a) s) (fun e s => Q (.error e) s)) :
    Triple P (Program.attempt x) Q E := by
  refine ⟨fun s hs => ?_⟩
  have h' := h.run s hs
  rw [Program.run_attempt]
  generalize x s = o at h' ⊢
  rcases o with ⟨e | a, s'⟩ <;> exact h'

theorem mapError {f : ε → ε'} {E : ε' → σ → Prop}
    (h : Triple P x Q (fun e s => E (f e) s)) : Triple P (Program.mapError f x) Q E := by
  refine ⟨fun s hs => ?_⟩
  have h' := h.run s hs
  rw [Program.mapError]
  generalize x s = o at h' ⊢
  rcases o with ⟨e | a, s'⟩ <;> exact h'

theorem weaken (h : Triple P x Q E) (hP : ∀ s, P' s → P s) (hQ : ∀ a s, Q a s → Q' a s)
    (hE : ∀ e s, E e s → F e s) : Triple P' x Q' F := by
  refine ⟨fun s hs => ?_⟩
  have h' := h.run s (hP s hs)
  generalize x s = o at h' ⊢
  rcases o with ⟨e | a, s'⟩
  · exact hE e s' h'
  · exact hQ a s' h'

theorem pre (h : Triple P x Q E) (hP : ∀ s, P' s → P s) : Triple P' x Q E :=
  weaken h hP (fun _ _ hs => hs) (fun _ _ hs => hs)

theorem post (h : Triple P x Q E) (hQ : ∀ a s, Q a s → Q' a s) : Triple P x Q' E :=
  weaken h (fun _ hs => hs) hQ (fun _ _ hs => hs)

theorem postError (h : Triple P x Q E) (hE : ∀ e s, E e s → F e s) :
    Triple P x Q F := weaken h (fun _ hs => hs) (fun _ _ hs => hs) hE

/-- What the precondition says about no state in particular. -/
theorem known (hc : ∀ s, P s → c) (h : c → Triple P x Q E) :
    Triple P x Q E := ⟨fun s hs => (h (hc s hs)).run s hs⟩

/-- The same, of what is not needed from there on. -/
theorem learn (h : c → Triple P x Q E) :
    Triple (fun s => P s ∧ c) x Q E := known (fun _ hs => hs.2) fun hc => pre (h hc) fun _ hs => hs.1

theorem ensure_bind [Decidable c] {f : Unit → Program σ ε β} (herr : ¬ c → ∀ s, P s → E e s)
    (hf : c → Triple P (f ()) R E) : Triple P (Program.ensure c e >>= f) R E :=
  bind (ensure (fun hc _ hs => ⟨hs, hc⟩) herr) fun _ => learn hf

theorem lift_bind (herr : ∀ e, r = .error e → ∀ s, P s → E e s)
    (hf : ∀ a, r = .ok a → Triple P (f a) R E) : Triple P (Program.lift r >>= f) R E :=
  bind (lift (fun _ ha _ hs => ⟨hs, ha⟩) herr) fun a => learn (hf a)

/-- Both outcomes of a program that may fail. -/
theorem attempt_bind {f : Except ε α → Program σ ε β} (hx : Triple P x Q F)
    (hok : ∀ a, Triple (Q a) (f (.ok a)) R E) (herr : ∀ e, Triple (F e) (f (.error e)) R E) :
    Triple P (Program.attempt x >>= f) R E :=
  bind (Q := fun o s => Outcome Q F (o, s)) (attempt hx) fun
    | .ok a => hok a
    | .error e => herr e

/-- What is known of every result is known of this one. -/
theorem also {R : α → Prop} (h : Triple P x Q E) (hR : ∀ s a s', P s → x s = (.ok a, s') → R a) :
    Triple P x (fun a s => Q a s ∧ R a) E := by
  refine ⟨fun s hs => ?_⟩
  have h' := h.run s hs
  have hr := hR s
  generalize x s = o at h' hr ⊢
  rcases o with ⟨e | a, s'⟩
  · exact h'
  · exact ⟨h', hr a s' hs rfl⟩

/-- The state at the end, whatever the outcome. -/
theorem final {Q : σ → Prop} (h : Triple P x (fun _ => Q) (fun _ => Q)) {s : σ} (hs : P s) :
    Q (x s).2 := by
  have h' := h.run s hs
  generalize x s = o at h' ⊢
  rcases o with ⟨e | a, s'⟩ <;> exact h'

/-- What is left to do indexes the invariant. -/
theorem forEach {f : α → Program σ ε Unit}
    (h : ∀ a as, Triple (I (a :: as)) (f a) (fun _ => I as) E) (as : List α) :
    Triple (I as) (Program.forEach f as) (fun _ => I []) E := by
  induction as with
  | nil => exact pure fun _ hs => hs
  | cons a as ih => exact bind (h a as) fun _ => ih

/-- What is done indexes the invariant. -/
theorem forEach_done {f : α → Program σ ε Unit} {all : List α}
    (h : ∀ done a as, all = done ++ a :: as → Triple (I done) (f a) (fun _ => I (done ++ [a])) E) :
    Triple (I []) (Program.forEach f all) (fun _ => I all) E := by
  suffices ∀ as done, all = done ++ as → Triple (I done) (Program.forEach f as) (fun _ => I all) E from
    this all [] rfl
  intro as
  induction as with
  | nil =>
    intro done hall
    rw [hall, List.append_nil]
    exact pure fun _ hs => hs
  | cons a as ih =>
    intro done hall
    exact bind (h done a as hall) fun _ => ih _ (by rw [hall, List.append_assoc]; rfl)

/-- Every result is related to its element, and the invariant is kept. -/
theorem collect {I : σ → Prop} {S : α → β → Prop}
    (h : ∀ a, Triple I (f a) (fun b s => I s ∧ S a b) E) (as : List α) :
    Triple I (Program.collect f as) (fun bs s => I s ∧ List.Forall₂ S as bs) E := by
  induction as with
  | nil => exact pure fun _ hs => ⟨hs, .nil⟩
  | cons a as ih =>
    refine bind (h a) fun b => learn fun hb => bind ih fun bs => pure ?_
    rintro s ⟨hs, hbs⟩
    exact ⟨hs, .cons hb hbs⟩

end Triple

end ZephyrOS.Lib
