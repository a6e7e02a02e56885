import ZephyrOS.Lib.Program

/-!
# Programs over a volume of named files

A machine has a memory of its own and a volume of files, which it changes one file at a time:
a file is replaced or deleted as a whole. Between two operations others may change files too,
and an operation may fail; then it did nothing. `passed` remembers the files there were before
each change, so that a power loss leaves the files of now or of one of those moments.

`Calmly` is the triple for a machine left alone, whose operations all succeed. It speaks of what
matters then: the files, those passed, and the memory.
-/

namespace ZephyrOS.Lib

open Function Program

/-- The files of a volume, by name. -/
abbrev Files (κ : Type) := κ → Option (List UInt8)

structure Machine (κ ε ρ : Type) where
  files : Files κ
  /-- The files there were before each change, the latest first. -/
  passed : List (Files κ)
  /-- All that was to be written, the latest first. -/
  asked : List (κ × List UInt8)
  /-- What others do to the files before the operation of that number. -/
  outside : Nat → Files κ → Files κ
  /-- The operations that fail, by number, and how. -/
  faults : Nat → Option ε
  operations : Nat
  memory : ρ

/-- Programs of a machine. -/
abbrev Session (κ ε ρ : Type) := Program (Machine κ ε ρ) ε

variable {κ ε ρ α β : Type} {name : κ} {files : Files κ} {memory : ρ}

namespace Machine

/-- After the others acted. -/
def moved (m : Machine κ ε ρ) : Machine κ ε ρ :=
  { m with files := m.outside m.operations m.files, operations := m.operations + 1 }

def replaced [DecidableEq κ] (m : Machine κ ε ρ) (name : κ) (file : Option (List UInt8)) :
    Machine κ ε ρ :=
  { m with passed := m.files :: m.passed, files := update m.files name file }

/-- A machine whose volume holds the files, and nobody else acts. -/
def fresh (files : Files κ) (memory : ρ) : Machine κ ε ρ :=
  { files, passed := [], asked := [], outside := fun _ files => files, faults := fun _ => none
    operations := 0, memory }

end Machine

namespace Session

/-- An operation on the volume. -/
def operate : Session κ ε ρ Unit := fun m =>
  match m.faults m.operations with
  | some e => (.error e, m.moved)
  | none => (.ok (), m.moved)

/-- The file of that name. -/
def look (name : κ) : Session κ ε ρ (Option (List UInt8)) := do
  operate
  Program.read fun m => m.files name

/-- Replace or delete a file. -/
def change [DecidableEq κ] (name : κ) (file : Option (List UInt8)) : Session κ ε ρ Unit :=
  Program.modify fun m => m.replaced name file

/-- Something is to be written. -/
def ask (name : κ) (bytes : List UInt8) : Session κ ε ρ Unit :=
  Program.modify fun m => { m with asked := (name, bytes) :: m.asked }

def inspect (f : ρ → α) : Session κ ε ρ α := Program.read fun m => f m.memory

def remember (f : ρ → ρ) : Session κ ε ρ Unit := Program.modify fun m => { m with memory := f m.memory }

end Session

/-! ### Rules -/

namespace Triple

variable {P : Machine κ ε ρ → Prop} {E : ε → Machine κ ε ρ → Prop}

theorem operate {Q : Unit → Machine κ ε ρ → Prop} (hok : ∀ m, P m → Q () m.moved)
    (herr : ∀ e m, P m → E e m.moved) : Triple P Session.operate Q E := by
  refine ⟨fun m hm => ?_⟩
  rw [Session.operate]
  cases m.faults m.operations with
  | none => exact hok m hm
  | some e => exact herr e m hm

theorem look {Q : Option (List UInt8) → Machine κ ε ρ → Prop}
    (hok : ∀ m, P m → Q (m.moved.files name) m.moved) (herr : ∀ e m, P m → E e m.moved) :
    Triple P (Session.look name) Q E :=
  bind (operate hok herr) fun _ => read fun _ h => h

end Triple

/-- Nobody else acts, and no operation fails. -/
structure Machine.Calm (m : Machine κ ε ρ) : Prop where
  alone : ∀ n files, m.outside n files = files
  sound : ∀ n, m.faults n = none

theorem Machine.calm_fresh :
    (Machine.fresh files memory : Machine κ ε ρ).Calm := ⟨fun _ _ => rfl, fun _ => rfl⟩

/-- What matters of a machine that is left alone. -/
structure View (κ ρ : Type) where
  files : Files κ
  passed : List (Files κ)
  memory : ρ

def Machine.view (m : Machine κ ε ρ) : View κ ρ := ⟨m.files, m.passed, m.memory⟩

/-- The files of now and of the moments before, the latest first. -/
def View.trail (v : View κ ρ) : List (Files κ) := v.files :: v.passed

def View.replaced [DecidableEq κ] (v : View κ ρ) (name : κ) (file : Option (List UInt8)) : View κ ρ :=
  { v with passed := v.files :: v.passed, files := update v.files name file }

section Replaced

variable [DecidableEq κ] (v : View κ ρ) (name : κ) (file : Option (List UInt8)) {ι : Type}

@[simp] theorem View.replaced_files : (v.replaced name file).files = update v.files name file := rfl

/-- One more file is as it should be, and those before still are. -/
theorem View.replaced_append {f : ι → κ} {g : ι → Option (List UInt8)} {done : List ι} {i : ι}
    (hsame : ∀ j ∈ done, f j = f i → g j = g i) (h : ∀ j ∈ done, v.files (f j) = g j) :
    ∀ j ∈ done ++ [i], (v.replaced (f i) (g i)).files (f j) = g j := by
  intro j hj
  rcases List.mem_append.mp hj with hj | hj
  · by_cases heq : f j = f i
    · rw [View.replaced_files, heq, update_self, hsame j hj heq]
    · rw [View.replaced_files, update_of_ne heq]
      exact h j hj
  · rw [List.mem_singleton.mp hj, View.replaced_files, update_self]

end Replaced

def Calmly (P : View κ ρ → Prop) (x : Session κ ε ρ α) (Q : α → View κ ρ → Prop)
    (E : ε → View κ ρ → Prop) : Prop :=
  Triple (fun m => m.Calm ∧ P m.view) x (fun a m => m.Calm ∧ Q a m.view)
    (fun e m => m.Calm ∧ E e m.view)

namespace Calmly

variable {P P' : View κ ρ → Prop} {Q Q' : α → View κ ρ → Prop} {R : β → View κ ρ → Prop}
  {E F : ε → View κ ρ → Prop} {e : ε} {x : Session κ ε ρ α} {f : α → Session κ ε ρ β} {c : Prop}
  {I : List α → View κ ρ → Prop} {g : α → Session κ ε ρ β} {a : α}

theorem pure {a : α} (h : ∀ v, P v → Q a v) : Calmly P (Pure.pure a : Session κ ε ρ α) Q E :=
  Triple.pure fun m hm => ⟨hm.1, h m.view hm.2⟩

theorem fail (h : ∀ v, P v → E e v) : Calmly P (fail e : Session κ ε ρ α) Q E :=
  Triple.fail fun m hm => ⟨hm.1, h m.view hm.2⟩

theorem bind (hx : Calmly P x Q E) (hf : ∀ a, Calmly (Q a) (f a) R E) :
    Calmly P (x >>= f) R E := Triple.bind hx hf

theorem ite [Decidable c] {y : Session κ ε ρ α} (hx : c → Calmly P x Q E)
    (hy : ¬ c → Calmly P y Q E) : Calmly P (if c then x else y) Q E := Triple.ite hx hy

theorem ensure [Decidable c] {Q : Unit → View κ ρ → Prop} (hok : c → ∀ v, P v → Q () v)
    (herr : ¬ c → ∀ v, P v → E e v) : Calmly P (ensure c e : Session κ ε ρ Unit) Q E :=
  ite (fun h => pure (hok h)) (fun h => fail (herr h))

theorem attempt {Q : Except ε α → View κ ρ → Prop}
    (h : Calmly P x (fun a v => Q (.ok a) v) (fun e v => Q (.error e) v)) :
    Calmly P (attempt x) Q E := Triple.attempt h

theorem mapError {f : ε → ε} (h : Calmly P x Q (fun e v => E (f e) v)) :
    Calmly P (mapError f x) Q E := Triple.mapError h

/-- What is left to do indexes the invariant. -/
theorem forEach {f : α → Session κ ε ρ Unit}
    (h : ∀ a as, Calmly (I (a :: as)) (f a) (fun _ => I as) E) (as : List α) :
    Calmly (I as) (forEach f as) (fun _ => I []) E :=
  Triple.forEach (I := fun as (m : Machine κ ε ρ) => m.Calm ∧ I as m.view) h as

theorem forEach_done {f : α → Session κ ε ρ Unit} {all : List α}
    (h : ∀ done a as, all = done ++ a :: as → Calmly (I done) (f a) (fun _ => I (done ++ [a])) E) :
    Calmly (I []) (Program.forEach f all) (fun _ => I all) E :=
  Triple.forEach_done h

theorem collect {S : α → β → Prop} (h : ∀ a, Calmly P (f a) (fun b v => P v ∧ S a b) E)
    (as : List α) : Calmly P (collect f as) (fun bs v => P v ∧ List.Forall₂ S as bs) E :=
  .post (.collect (fun a => .post (h a)
    fun _ _ hm => ⟨⟨hm.1, hm.2.1⟩, hm.2.2⟩) as) fun _ _ hm => ⟨hm.1.1, hm.1.2, hm.2⟩

theorem weaken (h : Calmly P x Q E) (hP : ∀ v, P' v → P v) (hQ : ∀ a v, Q a v → Q' a v)
    (hE : ∀ e v, E e v → F e v) : Calmly P' x Q' F :=
  Triple.weaken h (fun m hm => ⟨hm.1, hP m.view hm.2⟩) (fun a m hm => ⟨hm.1, hQ a m.view hm.2⟩)
    (fun e m hm => ⟨hm.1, hE e m.view hm.2⟩)

theorem conseq (h : Calmly P x Q E) (hQ : ∀ a v, Q a v → Q' a v) (hE : ∀ e v, E e v → F e v) :
    Calmly P x Q' F := weaken h (fun _ hv => hv) hQ hE

theorem pre (h : Calmly P x Q E) (hP : ∀ v, P' v → P v) : Calmly P' x Q E :=
  Triple.pre h fun m hm => ⟨hm.1, hP m.view hm.2⟩

theorem post (h : Calmly P x Q E) (hQ : ∀ a v, Q a v → Q' a v) : Calmly P x Q' E :=
  Triple.post h fun a m hm => ⟨hm.1, hQ a m.view hm.2⟩

theorem postError (h : Calmly P x Q E) (hE : ∀ e v, E e v → F e v) : Calmly P x Q F :=
  conseq h (fun _ _ hv => hv) hE

/-- What the precondition says about no state in particular. -/
theorem known (hc : ∀ v, P v → c) (h : c → Calmly P x Q E) :
    Calmly P x Q E := Triple.known (fun m hm => hc m.view hm.2) h

/-- The same, of what is not needed from there on. -/
theorem learn (h : c → Calmly P x Q E) :
    Calmly (fun v => P v ∧ c) x Q E := known (fun _ hv => hv.2) fun hc => pre (h hc) fun _ hv => hv.1

theorem never : Calmly (fun _ => False) x Q E := ⟨fun _ hm => hm.2.elim⟩

theorem ensure_bind [Decidable c] {f : Unit → Session κ ε ρ β} (herr : ¬ c → ∀ v, P v → E e v)
    (hf : c → Calmly P (f ()) R E) : Calmly P (Program.ensure c e >>= f) R E :=
  Triple.ensure_bind (fun hc m hm => ⟨hm.1, herr hc m.view hm.2⟩) hf

theorem lift_bind {r : Except ε α} (herr : ∀ e, r = .error e → ∀ v, P v → E e v)
    (hf : ∀ a, r = .ok a → Calmly P (f a) R E) : Calmly P (lift r >>= f) R E :=
  Triple.lift_bind (fun e he m hm => ⟨hm.1, herr e he m.view hm.2⟩) hf

theorem attempt_bind {f : Except ε α → Session κ ε ρ β} (hx : Calmly P x Q F)
    (hok : ∀ a, Calmly (Q a) (f (.ok a)) R E) (herr : ∀ e, Calmly (F e) (f (.error e)) R E) :
    Calmly P (Program.attempt x >>= f) R E := Triple.attempt_bind hx hok herr

theorem final {Q : View κ ρ → Prop} (h : Calmly P x (fun _ => Q) (fun _ => Q)) {m : Machine κ ε ρ}
    (hm : m.Calm) (hP : P m.view) : (x m).2.Calm ∧ Q (x m).2.view :=
  Triple.final h ⟨hm, hP⟩

/-- Each outcome separately: a triple for every state that may come before. -/
theorem intro (h : ∀ v, P v → Calmly (fun w => w = v) x Q E) :
    Calmly P x Q E := ⟨fun m hm => (h m.view hm.2).run m ⟨hm.1, rfl⟩⟩

theorem look {Q : Option (List UInt8) → View κ ρ → Prop}
    (h : ∀ v, P v → Q (v.files name) v) : Calmly P (Session.look name) Q E := by
  refine ⟨fun m hm => ?_⟩
  have hmoved : m.moved = { m with operations := m.operations + 1 } := by
    rw [Machine.moved, hm.1.alone]
  have hrun : (Session.look name : Session κ ε ρ _) m = (.ok (m.files name), m.moved) := by
    rw [Session.look, run_bind, Session.operate, hm.1.sound, hmoved]
    rfl
  rw [hrun, hmoved]
  exact ⟨⟨hm.1.alone, hm.1.sound⟩, h m.view hm.2⟩

/-- What was there is known from there on. -/
theorem look_bind {f : Option (List UInt8) → Session κ ε ρ β}
    (h : ∀ file, Calmly (fun v => P v ∧ v.files name = file) (f file) R E) :
    Calmly P (Session.look name >>= f) R E := bind (look fun _ hv => ⟨hv, rfl⟩) h

theorem change [DecidableEq κ] {file : Option (List UInt8)} {Q : Unit → View κ ρ → Prop}
    (h : ∀ v, P v → Q () (v.replaced name file)) :
    Calmly P (Session.change name file : Session κ ε ρ Unit) Q E :=
  ⟨fun m hm => ⟨⟨hm.1.alone, hm.1.sound⟩, h m.view hm.2⟩⟩

theorem ask {bytes : List UInt8} {Q : Unit → View κ ρ → Prop} (h : ∀ v, P v → Q () v) :
    Calmly P (Session.ask name bytes : Session κ ε ρ Unit) Q E :=
  ⟨fun m hm => ⟨⟨hm.1.alone, hm.1.sound⟩, h m.view hm.2⟩⟩

variable {f : ρ → α}

theorem inspect (h : ∀ v, P v → Q (f v.memory) v) :
    Calmly P (Session.inspect f : Session κ ε ρ α) Q E :=
  ⟨fun m hm => ⟨hm.1, h m.view hm.2⟩⟩

/-- What else is read of the machine does not matter. -/
theorem read {f : Machine κ ε ρ → α} : Calmly P (read f : Session κ ε ρ α) (fun _ => P) E :=
  ⟨fun _ hm => hm⟩

/-- What was read is known from there on. -/
theorem inspect_bind (h : ∀ a, Calmly (fun v => P v ∧ f v.memory = a) (g a) R E) :
    Calmly P (Session.inspect f >>= g) R E :=
  bind (inspect fun _ hv => ⟨hv, rfl⟩) h

/-- What is read is the same in all states that may come before. -/
theorem inspect_eq (ha : ∀ v, P v → f v.memory = a)
    (h : Calmly P (g a) R E) : Calmly P (Session.inspect f >>= g) R E :=
  bind (Q := fun b v => P v ∧ b = a) (inspect fun v hv => ⟨hv, ha v hv⟩) fun b => learn (by rintro rfl; exact h)

theorem remember {f : ρ → ρ} {Q : Unit → View κ ρ → Prop}
    (h : ∀ v, P v → Q () { v with memory := f v.memory }) :
    Calmly P (Session.remember f : Session κ ε ρ Unit) Q E :=
  ⟨fun m hm => ⟨⟨hm.1.alone, hm.1.sound⟩, h m.view hm.2⟩⟩

end Calmly

end ZephyrOS.Lib
