import ZephyrOS.Update.ZupdSigned

/-!
# The updater left alone

What each function does when nobody else touches the files and no operation fails: the triples of
`Calmly`. A read returns what is there and keeps any property; a write leads to the view with one
file replaced. `Describes` is what the checks of file states mean then.
-/

namespace ZephyrOS.Zupd

open Lib RootFiles Function List Option
open Update (Version Base Slot bySlot)

abbrev Scene := View Path Memory

variable {P : Scene → Prop} {E : Err → Scene → Prop} {path : Path} {env : Env} {slot : Slot}
  {file : Option (List UInt8)} {expected : FileState} {Q : Unit → Scene → Prop}
  {backups stages : Bool} {α : Type} {decode : List UInt8 → Option α} {sequence : α → Nat}

/-! ### Files -/

/-- A size the updater handles. -/
def SizeOk (bytes : List UInt8) : Prop := bytes.length ≠ 0 ∧ bytes.length ≤ maxPayloadSize

/-- The file state is that of the file. -/
def Describes (env : Env) (expected : FileState) : Option (List UInt8) → Prop
  | none => expected.present = false
  | some bytes => SizeOk bytes ∧ expected = ⟨true, bytes.length, env.crypto.sha256 bytes⟩

theorem calm_contents :
    Calmly P (contents path : Command _) (fun bytes v => P v ∧ v.files path = some bytes)
      (fun e v => P v ∧ e = .notFound ∧ v.files path = none) := by
  refine .look_bind fun file => ?_
  cases file with
  | none => exact .fail fun v hv => ⟨hv.1, rfl, hv.2⟩
  | some bytes => exact .pure fun _ hv => hv

theorem calm_getRootFileInfo :
    Calmly P (getRootFileInfo path : Command _)
      (fun size v => P v ∧ ∃ bytes, v.files path = some bytes ∧ size = bytes.length)
      (fun e v => P v ∧ e = .notFound ∧ v.files path = none) :=
  .bind calm_contents fun bytes => .pure fun _ hv => ⟨hv.1, bytes, hv.2, rfl⟩

variable {contents : List UInt8}

theorem calm_readFileRangeAt (contents : List UInt8)
    (hP : ∀ v, P v → v.files path = some contents) (offset size : Nat) :
    Calmly P (readFileRangeAt path offset size : Command _)
      (fun bytes v => P v ∧ bytes = (contents.drop offset).take size) E := by
  refine .bind (.postError calm_contents ?_)
    fun bytes => .pure fun v hv => ⟨hv.1, ?_⟩
  · intro e v hv
    exact absurd ((hP v hv.1).symm.trans hv.2.2) (by simp)
  · rw [some.inj (hv.2.symm.trans (hP v hv.1))]

theorem calm_readChunks (hP : ∀ v, P v → v.files path = some contents)
    (fuel : Nat) : ∀ offset, contents.length - offset ≤ fuel →
      Calmly P (readChunks path contents.length fuel offset)
        (fun bytes v => P v ∧ bytes = (contents.drop offset).take (contents.length - offset)) E := by
  induction fuel with
  | zero =>
    intro offset hfuel
    exact .pure fun v hv => ⟨hv, by rw [Nat.le_zero.mp hfuel, take_zero]⟩
  | succ fuel ih =>
    intro offset hfuel
    refine .ite (fun hlt => ?_) (fun hge => ?_)
    · have hpositive : min (contents.length - offset) ioBufferSize ≠ 0 := by
        unfold ioBufferSize; omega
      refine .bind (.mapError (calm_readFileRangeAt contents hP offset _)) fun bytes =>
        .learn fun hbytes => .ensure_bind (fun hbad => ?_) fun _ => ?_
      · rw [hbytes, length_take, length_drop] at hbad
        omega
      · refine .bind (ih _ (by omega)) fun rest => .pure fun v hv => ⟨hv.1, ?_⟩
        rw [hv.2, hbytes, ← drop_drop, ← take_add]
        congr 1
        omega
    · exact .pure fun v hv => ⟨hv, by rw [Nat.sub_eq_zero_of_le (by omega), take_zero]⟩

theorem calm_hashRootFile :
    Calmly P (hashRootFile env path) (fun file v => P v ∧ Describes env file (v.files path)
        ∧ file.present = true)
      (fun _ v => P v ∧ ∀ bytes, v.files path = some bytes → ¬ SizeOk bytes) := by
  refine .bind (.postError calm_getRootFileInfo ?_)
    fun size => ?_
  · intro e v hv
    exact ⟨hv.1, fun bytes hbytes => absurd (hv.2.2.symm.trans hbytes) (by simp)⟩
  refine .intro fun v hv => ?_
  obtain ⟨hP, bytes, hfile, rfl⟩ := hv
  refine .ensure_bind (fun hsize w hw => ?_) fun hsize => ?_
  · subst hw
    refine ⟨hP, fun bytes' hbytes' => ?_⟩
    rw [some.inj (hbytes'.symm.trans hfile)]
    exact hsize
  · refine .bind (calm_readChunks ?_ _ 0 (by omega)) fun read =>
      .pure ?_
    · rintro w rfl
      exact hfile
    · rintro w ⟨rfl, rfl⟩
      refine ⟨hP, ?_, rfl⟩
      rw [hfile, drop_zero, Nat.sub_zero, take_length]
      exact ⟨hsize, rfl⟩

theorem Describes.size_ok (h : Describes env expected file) (hpresent : expected.present = true) :
    ∃ bytes, file = some bytes ∧ SizeOk bytes
      ∧ expected = ⟨true, bytes.length, env.crypto.sha256 bytes⟩ := by
  cases file with
  | none => exact absurd (hpresent.symm.trans h) (by simp)
  | some bytes => exact ⟨bytes, rfl, h⟩

/-- Of the states that describe a file that is there, there is one. -/
theorem Describes.unique {first second : FileState}
    (hfirst : Describes env first file) (hsecond : Describes env second file)
    (hpresent : first.present = true) : first = second := by
  obtain ⟨bytes, rfl, -, heq⟩ := hfirst.size_ok hpresent
  exact heq.trans hsecond.2.symm

theorem FileState.same_self (file : FileState) : file.same file = true := by
  simp [FileState.same]

/-- The check succeeds if and only if the file is as described. -/
theorem calm_verifyRootFile :
    Calmly P (verifyRootFile env path expected)
      (fun _ v => P v ∧ Describes env expected (v.files path))
      (fun _ v => P v ∧ ¬ Describes env expected (v.files path)) := by
  refine .ite (fun habsent => ?_) (fun hpresent => ?_)
  · refine .attempt_bind calm_getRootFileInfo (fun size => .fail ?_) fun e => ?_
    · rintro v ⟨hP, bytes, hfile, -⟩
      rw [hfile]
      refine ⟨hP, fun h => ?_⟩
      rw [h.2] at habsent
      cases habsent
    · refine .known (fun v hv => hv.2.1) ?_
      rintro rfl
      refine .pure fun v hv => ?_
      rw [hv.2.2]
      exact ⟨hv.1, habsent⟩
  · have hpresent : expected.present = true := by simpa using hpresent
    refine .bind (.postError calm_hashRootFile ?_)
      fun actual => .ensure (fun hsame v hv => ⟨hv.1, ?_⟩) (fun hsame v hv => ⟨hv.1, ?_⟩)
    · rintro e v ⟨hP, hbad⟩
      refine ⟨hP, fun h => ?_⟩
      obtain ⟨bytes, hfile, hsize, -⟩ := h.size_ok hpresent
      exact hbad bytes hfile hsize
    · rw [FileState.eq_of_same hsame hpresent]
      exact hv.2.1
    · intro h
      rw [hv.2.1.unique h hv.2.2] at hsame
      exact hsame (FileState.same_self _)

theorem calm_loadRootFile (hP : ∀ v, P v → v.files path = some contents)
    (hexpected : Describes env expected (some contents)) :
    Calmly P (loadRootFile env path expected) (fun bytes v => P v ∧ bytes = contents) E := by
  obtain ⟨hsize, rfl⟩ := hexpected
  refine .ensure_bind (fun hbad => absurd ⟨rfl, hsize⟩ hbad) fun _ => .bind
    (.mapError (calm_readFileRangeAt contents hP 0 _)) fun bytes => .learn fun hbytes => ?_
  rw [drop_zero, take_length] at hbytes
  subst hbytes
  exact .ensure_bind (fun hbad => absurd rfl hbad) fun _ =>
    .ensure_bind (fun hbad => absurd rfl hbad) fun _ => .pure fun v hv => ⟨hv, rfl⟩

theorem calm_atomicWriteRoot {data : List UInt8} {mode : AtomicMode}
    (hsize : data.length ≠ 0 ∧ data.length ≤ maxAtomicSize)
    (hmode : ∀ v, P v → mode = .createOrReplace ∨ (v.files path).isSome = true)
    (h : ∀ v, P v → Q () (v.replaced path (some data))) :
    Calmly P (atomicWriteRoot path data mode : Command Unit) Q E := by
  refine .bind (.ask fun _ h => h) fun _ =>
    .ensure_bind (fun hbad => absurd hsize hbad) fun _ => .look_bind fun file =>
    .ensure_bind (fun hbad v hv => ?_) fun _ => .change fun v hv => h v hv.1
  rw [← hv.2] at hbad
  exact absurd (hmode v hv.1) hbad

theorem calm_removeIfPresent
    (hnone : ∀ v, P v → v.files path = none → Q () v) (h : ∀ v, P v → Q () (v.replaced path none)) :
    Calmly P (removeIfPresent path) Q E := by
  refine .bind (.attempt (.look_bind fun file =>
    .ensure_bind (fun hbad v hv => ?_) fun _ => .change fun v hv => h v hv.1)) fun _ =>
    .pure fun _ h => h
  exact hnone v hv.1 (by rw [hv.2]; simpa using hbad)

theorem Describes.of_same {first second : FileState} (h : Describes env second file)
    (hsame : first.same second = true) : Describes env first file := by
  cases file with
  | none =>
    have hpresent : first.present = second.present := by simp_all [FileState.same]
    exact hpresent.trans h
  | some bytes =>
    rw [← FileState.eq_of_same hsame (by rw [h.2])]
    exact h

theorem calm_currentFile {target : Target} : Calmly P (currentFile env target)
    (fun found v => P v ∧ Describes env found (v.files (.target target))) (fun _ => P) := by
  refine .attempt_bind calm_getRootFileInfo (fun size => ?_) fun e => ?_
  · exact .weaken calm_hashRootFile (fun _ h => h.1) (fun _ _ h => ⟨h.1, h.2.1⟩) (fun _ _ h => h.1)
  · refine .known (fun v hv => hv.2.1) ?_
    rintro rfl
    refine .pure fun v hv => ⟨hv.1, ?_⟩
    rw [hv.2.2]
    rfl

theorem calm_currentFiles : Calmly P (currentFiles env)
    (fun found v => P v ∧ ∀ target, Describes env (found target) (v.files (.target target)))
    (fun _ => P) := by
  refine .bind calm_currentFile fun first => .bind (.postError calm_currentFile fun _ _ h => h.1)
    fun second => .bind (.postError calm_currentFile fun _ _ h => h.1.1) fun third => .pure ?_
  rintro v ⟨⟨⟨hP, hfirst⟩, hsecond⟩, hthird⟩
  refine ⟨hP, fun target => ?_⟩
  match target with
  | 0 => exact hfirst
  | 1 => exact hsecond
  | 2 => exact hthird

/-- A property that does not depend on the slot's stages and backups. -/
def SlotFree (slot : Slot) (P : Scene → Prop) : Prop :=
  ∀ v target, P v → P (v.replaced (.stage slot target) none) ∧ P (v.replaced (.backup slot target) none)

theorem calm_cleanupSlot (hP : SlotFree slot P) :
    Calmly P (cleanupSlot slot backups stages) (fun _ => P) E := by
  refine .forEach (I := fun _ => P) (fun target _ => ?_) _
  have hstage : Calmly P (removeIfPresent (.stage slot target)) (fun _ => P) E :=
    calm_removeIfPresent (fun _ h _ => h) (fun v h => (hP v target h).1)
  have hbackup : Calmly P (if backups then removeIfPresent (.backup slot target) else pure ())
      (fun _ => P) E :=
    .ite (fun _ => calm_removeIfPresent (fun _ h _ => h) (fun v h => (hP v target h).2))
      (fun _ => .pure fun _ h => h)
  exact .ite (fun _ => .bind hstage fun _ => hbackup) (fun _ => hbackup)

/-- All of them are deleted. -/
theorem calm_cleanupSlot_all (hP : SlotFree slot P) : Calmly P (cleanupSlot slot true true)
      (fun _ v => P v ∧ ∀ target, v.files (.stage slot target) = none ∧ v.files (.backup slot target) = none)
      E := by
  -- What is gone stays gone.
  have hkeep : ∀ {v : Scene} {path other : Path}, v.files other = none →
      (v.replaced path none).files other = none := by
    intro v path other hnone
    rw [View.replaced_files, update_apply, hnone, ite_self]
  refine .weaken (.forEach_done (I := fun done v => P v ∧ ∀ target ∈ done,
      v.files (.stage slot target) = none ∧ v.files (.backup slot target) = none)
    fun done target rest _ => ?_) (fun v hv => ⟨hv, nofun⟩)
    (fun _ v hv => ⟨hv.1, fun target => hv.2 target (mem_targets target)⟩) (fun _ _ h => h)
  refine .bind (Q := fun _ v => (P v ∧ ∀ other ∈ done,
      v.files (.stage slot other) = none ∧ v.files (.backup slot other) = none)
        ∧ v.files (.stage slot target) = none)
    (calm_removeIfPresent (fun v hv hnone => ⟨hv, hnone⟩) (fun v hv => ?_)) fun _ =>
    calm_removeIfPresent (fun v hv hnone => ?_) (fun v hv => ?_)
  · exact ⟨⟨(hP v target hv.1).1, fun other hother =>
      ⟨hkeep (hv.2 other hother).1, hkeep (hv.2 other hother).2⟩⟩, update_self ..⟩
  · exact ⟨hv.1.1, forall_mem_append.mpr ⟨hv.1.2, forall_mem_singleton.mpr ⟨hv.2, hnone⟩⟩⟩
  · refine ⟨(hP v target hv.1.1).2, forall_mem_append.mpr ⟨fun other hother => ?_,
      forall_mem_singleton.mpr ⟨hkeep hv.2, update_self ..⟩⟩⟩
    exact ⟨hkeep (hv.1.2 other hother).1, hkeep (hv.1.2 other hother).2⟩

/-- All targets are as the state says. -/
theorem calm_validateCurrentState {s : State} (hstate : ∀ v, P v → v.memory.state = s) :
    Calmly P (validateCurrentState env)
      (fun _ v => P v ∧ ∀ target, Describes env (s.current target) (v.files (.target target)))
      (fun _ v => P v ∧ ¬ ∀ target, Describes env (s.current target) (v.files (.target target))) := by
  refine .inspect_eq hstate (.weaken (.forEach_done (I := fun done v => P v ∧ ∀ target ∈ done,
      Describes env (s.current target) (v.files (.target target)))
    fun done target rest _ => .conseq calm_verifyRootFile ?_ ?_) (fun v hv => ⟨hv, nofun⟩)
    (fun _ v hv => ⟨hv.1, fun target => hv.2 target (mem_targets target)⟩) (fun _ _ h => h))
  · rintro _ v ⟨hv, htarget⟩
    exact ⟨hv.1, forall_mem_append.mpr ⟨hv.2, forall_mem_singleton.mpr htarget⟩⟩
  · rintro _ v ⟨hv, htarget⟩
    exact ⟨hv.1, fun hall => htarget (hall target)⟩

/-- The check of files that are as the state says. -/
theorem calm_validateCurrentState_ok (s : State) (hstate : ∀ v, P v → v.memory.state = s)
    (hdescribed : ∀ v, P v → ∀ target, Describes env (s.current target) (v.files (.target target))) :
    Calmly P (validateCurrentState env) (fun _ => P) E :=
  .conseq (calm_validateCurrentState hstate) (fun _ _ h => h.1)
    fun _ v h => absurd (hdescribed v h.1) h.2

/-! ### Redundant records -/

/-- The record in each copy, if it can be read. -/
def recordAt (path : Slot → Path) (decode : List UInt8 → Option α) (files : Files Path) (slot : Slot) :
    Option α := ((files (path slot)).filter fun bytes => bytes.length == controlSize).bind decode

theorem calm_readControl :
    Calmly P (readControl path) (fun found v => P v ∧ found =
      ((v.files path).isSome, (v.files path).filter fun bytes => bytes.length == controlSize)) E := by
  refine .attempt_bind calm_getRootFileInfo (fun size => .intro fun v hv => ?_) fun e => ?_
  · obtain ⟨hP, bytes, hfile, rfl⟩ := hv
    refine .ite (fun hsize => .pure ?_) (fun hsize => ?_)
    · rintro w rfl
      exact ⟨hP, by rw [hfile]; simp [Option.filter, hsize]⟩
    · have hsize : bytes.length = controlSize := by simpa using hsize
      refine .attempt_bind (calm_readFileRangeAt bytes ?_ 0 controlSize)
        (fun read => .learn fun hread => .pure ?_) (fun _ => .never)
      · rintro w rfl
        exact hfile
      · rintro w rfl
        rw [drop_zero, ← hsize, take_length] at hread
        exact ⟨hP, by rw [hfile, hread]; simp [Option.filter, hsize]⟩
  · refine .known (fun v hv => hv.2.1) ?_
    rintro rfl
    exact .pure fun v hv => ⟨hv.1, by rw [hv.2.2]; rfl⟩

/-- What the loader finds: the latest record, and otherwise no file at all. -/
def Finds (path : Slot → Path) (decode : List UInt8 → Option α) (sequence : α → Nat)
    (files : Files Path) (found : Option (Slot × α)) : Prop :=
  latest sequence (recordAt path decode files) = found
    ∧ (found = none → ∀ slot, files (path slot) = none)

theorem calm_loadRecords (path : Slot → Path) :
    Calmly P (loadRecords path decode sequence)
      (fun found v => P v ∧ Finds path decode sequence v.files found)
      (fun _ v => P v ∧ ∀ found, ¬ Finds path decode sequence v.files found) := by
  refine .bind calm_readControl fun first =>
    .bind calm_readControl fun second => ?_
  refine .intro fun v hv => ?_
  obtain ⟨⟨hP, rfl⟩, rfl⟩ := hv
  have hrecords : bySlot (((v.files (path .a)).filter fun bytes => bytes.length == controlSize).bind decode)
      (((v.files (path .b)).filter fun bytes => bytes.length == controlSize).bind decode)
      = recordAt path decode v.files := by
    funext slot
    cases slot <;> rfl
  simp only [hrecords]
  split
  · rename_i found hfound
    refine .pure ?_
    rintro w rfl
    exact ⟨hP, hfound, fun hc => absurd hc (some_ne_none _)⟩
  rename_i hnone
  refine .ensure_bind (fun hpresent w hw => ?_) fun habsent => .pure fun w hw => ?_
  · subst hw
    refine ⟨hP, fun found hfound => ?_⟩
    rw [← hfound.1, hnone] at hfound
    -- no record means that neither file is there
    exact hpresent (by simp [hfound.2 rfl])
  · subst hw
    refine ⟨hP, hnone, fun _ slot => ?_⟩
    cases slot
    · simpa using habsent.1
    · simpa using habsent.2

/-- The successor, written to the other copy, is the latest. -/
theorem latest_update {copies : Slot → Option α} {x y : α}
    (h : latest sequence copies = some (slot, x)) (hy : sequence y = sequence x + 1) :
    latest sequence (update copies slot.other (some y)) = some (slot.other, y) := by
  unfold latest at h ⊢
  cases ha : copies .a with
  | none =>
    cases hb : copies .b with
    | none => simp [ha, hb] at h
    | some b =>
      simp only [ha, hb, some.injEq, Prod.mk.injEq] at h
      obtain ⟨rfl, rfl⟩ := h
      simp [Slot.other, update, hb, hy]
  | some a =>
    cases hb : copies .b with
    | none =>
      simp only [ha, hb, some.injEq, Prod.mk.injEq] at h
      obtain ⟨rfl, rfl⟩ := h
      simp [Slot.other, update, ha, hy]
    | some b =>
      simp only [ha, hb] at h
      split at h
      all_goals
        obtain ⟨rfl, rfl⟩ := h
        simp [Slot.other, update, ha, hb, hy]

end ZephyrOS.Zupd
