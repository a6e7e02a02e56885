import ZephyrOS.Update.ZupdAccept

/-!
# Only signed contents are installed

Whatever others do to a package and to all the files beside the targets, and whichever operations
fail: everything `applyFile` writes to a target is what the target held before, or has the hash and
size of an entry of a package that was verified. The bytes come from staging and backup files, which
others may have changed as well; they are hashed once more before they are written, and the hashes
they are compared with are in memory since the package was verified.
-/

namespace ZephyrOS.Zupd

open Lib RootFiles Function List Program
open Update (Version Base Slot)

abbrev Board := Machine Path Err Memory

/-! ### Properties that operations keep -/

variable {ε α β : Type} {a : α} {path : Path} {Q : α → Board → Prop} {target : Target}
  {expected : FileState}

/-- The program keeps the property, whether it succeeds or not. -/
def Keeps (P : Board → Prop) (x : Program Board ε α) : Prop := Triple P x (fun _ => P) (fun _ => P)

namespace Keeps

variable {P : Board → Prop} {e : ε} {c : Prop} {x : Program Board ε α} {f : α → Program Board ε β}
  {ε' : Type}

theorem pure : Keeps P (Pure.pure a : Program Board ε α) := Triple.pure fun _ h => h

theorem fail : Keeps P (fail e : Program Board ε α) := Triple.fail fun _ h => h

theorem read {f : Board → α} : Keeps P (read f : Program Board ε α) :=
  Triple.read fun _ h => h

theorem lift {r : Except ε α} : Keeps P (lift r : Program Board ε α) :=
  Triple.lift (fun _ _ _ h => h) (fun _ _ _ h => h)

theorem ensure [Decidable c] : Keeps P (ensure c e : Program Board ε Unit) :=
  Triple.ensure (fun _ _ h => h) (fun _ _ h => h)

theorem bind (hx : Keeps P x) (hf : ∀ a, Keeps P (f a)) : Keeps P (x >>= f) := Triple.bind hx hf

theorem ite [Decidable c] {y : Program Board ε α} (hx : Keeps P x) (hy : Keeps P y) :
    Keeps P (if c then x else y) := Triple.ite (fun _ => hx) (fun _ => hy)

theorem attempt {E : ε → Board → Prop} (h : Keeps P x) :
    Triple P (attempt x) (fun _ => P) E := .attempt h

theorem mapError {f : ε → ε'} (h : Keeps P x) : Keeps P (mapError f x) := Triple.mapError h

theorem forEach {f : α → Program Board ε Unit} (h : ∀ a, Keeps P (f a)) (as : List α) :
    Keeps P (forEach f as) := Triple.forEach (I := fun _ => P) (fun a _ => h a) as

theorem collect (h : ∀ a, Keeps P (f a)) (as : List α) : Keeps P (collect f as) := by
  induction as with
  | nil => exact pure
  | cons a as ih => exact bind (h a) fun _ => bind ih fun _ => pure

end Keeps

/-- Neither the state nor the journal's entries change. -/
def SameTask (memory memory' : Memory) : Prop :=
  memory'.state = memory.state ∧ memory'.journal.entries = memory.journal.entries

/-- A property that reading keeps. -/
def Steady (P : Board → Prop) : Prop := ∀ m : Board, P m → P m.moved

/-- A property of the targets and of a part of the memory that `R` keeps. -/
structure Stable (R : Memory → Memory → Prop) (P : Board → Prop) : Prop where
  moved : Steady P
  replaced : ∀ (m : Board) path file, (∀ target, path ≠ .target target) → P m → P (m.replaced path file)
  asked : ∀ (m : Board) path bytes, (∀ target, path ≠ .target target) → P m →
    P { m with asked := (path, bytes) :: m.asked }
  memory : ∀ (m : Board) memory', R m.memory memory' → P m → P { m with memory := memory' }

section Stable

variable {R : Memory → Memory → Prop} {P : Board → Prop} {offset size : Nat} {data : List UInt8}
  {mode : AtomicMode} {backups stages : Bool} {slot : Slot} {env : Env} {R' : Memory → Memory → Prop}

theorem keeps_look (hP : Steady P) : Keeps P (Session.look path : Command _) :=
  .look hP fun _ => hP

theorem keeps_contents (hP : Steady P) : Keeps P (contents path : Command _) := by
  refine .bind (keeps_look hP) fun file => ?_
  cases file with
  | none => exact .fail
  | some bytes => exact .pure

theorem keeps_getRootFileInfo (hP : Steady P) : Keeps P (getRootFileInfo path : Command _) :=
  .bind (keeps_contents hP) fun _ => .pure

theorem keeps_readFileRangeAt (hP : Steady P) :
    Keeps P (readFileRangeAt path offset size : Command _) :=
  .bind (keeps_contents hP) fun _ => .pure

theorem keeps_atomicWriteRoot (hP : Stable R P) (hpath : ∀ target, path ≠ .target target) :
    Keeps P (atomicWriteRoot path data mode : Command _) :=
  .bind (.modify fun m h => hP.asked m path data hpath h) fun _ =>
    .bind .ensure fun _ =>
    .bind (keeps_look hP.moved) fun _ =>
    .bind .ensure fun _ => .modify fun m h => hP.replaced m path _ hpath h

theorem keeps_atomicDeleteRoot (hP : Stable R P)
    (hpath : ∀ target, path ≠ .target target) : Keeps P (atomicDeleteRoot path : Command _) :=
  .bind (keeps_look hP.moved) fun _ =>
    .bind .ensure fun _ => .modify fun m h => hP.replaced m path _ hpath h

theorem keeps_remember (hP : Stable R P) {f : Memory → Memory} (hf : ∀ memory, R memory (f memory)) :
    Keeps P (Session.remember f : Command Unit) :=
  .modify fun m h => hP.memory m _ (hf m.memory) h

/-! ### Verification -/

section Steady

variable (hP : Steady P) {fuel size : Nat} {installed : Installed} {expected : FileState}
include hP

theorem keeps_readExact (path : Path) (size : Nat) :
    Keeps P (readExact path offset size : Reading Memory _) :=
  .bind (.mapError (keeps_readFileRangeAt hP)) fun _ =>
    .bind .lift fun _ => .pure

theorem keeps_loadStructure (path : Path) :
    Keeps P (loadStructure path : Reading Memory _) :=
  .bind (keeps_readExact hP _ _) fun _ =>
    .bind .lift fun _ => .bind .lift fun _ => .bind .lift fun _ =>
    .bind (.bind (.mapError (keeps_readFileRangeAt hP)) fun _ => .lift) fun _ =>
    .bind (keeps_readExact hP _ _) fun _ => .bind .lift fun _ =>
    .bind (keeps_readExact hP _ _) fun _ => .pure

theorem keeps_readPayload (path : Path) :
    ∀ offset remaining, Keeps P (readPayload path fuel offset remaining : Reading Memory _) := by
  induction fuel with
  | zero => intro offset remaining; exact .pure
  | succ fuel ih =>
    intro offset remaining
    exact .ite .pure (.bind (keeps_readExact hP _ _) fun _ =>
      .bind (ih _ _) fun _ => .pure)

theorem keeps_targetExists (entry : Entry) :
    Keeps P (targetExists entry : Reading Memory _) := by
  unfold targetExists
  split
  · exact .fail
  · exact .bind (.attempt (.mapError (keeps_readFileRangeAt hP))) fun _ => .lift

theorem keeps_verifyLoaded (crypto : Crypto)
    (package : Package) : Keeps P (verifyLoaded crypto installed path package : Reading Memory _) := by
  have hpayload : ∀ entry, Keeps P (hashPayload crypto path entry) := fun entry =>
    .bind (keeps_readPayload hP _ _ _) fun _ => .bind .lift fun _ => .pure
  refine .bind (.bind (.collect hpayload _) fun _ =>
    .bind .lift fun _ => .pure) fun _ =>
    .bind .lift fun _ => .bind .lift fun _ => .bind .lift fun _ => ?_
  cases installed with
  | none => exact .fail
  | some base =>
    exact .bind .lift fun _ => .bind .lift fun _ =>
      .forEach (keeps_targetExists hP) _

theorem keeps_verifyInternal (crypto : Crypto) (installed : Installed) (path : Path) :
    Keeps P (verifyInternal crypto installed path : Reading Memory _) :=
  .bind (keeps_loadStructure hP path) fun _ =>
    .bind (keeps_verifyLoaded hP _ _) fun _ => .pure

/-! ### Files -/

theorem keeps_readChunks (path : Path) : ∀ offset, Keeps P (readChunks path size fuel offset) := by
  induction fuel with
  | zero => intro offset; exact .pure
  | succ fuel ih =>
    intro offset
    exact .ite (.bind (.mapError (keeps_readFileRangeAt hP)) fun _ =>
      .bind .ensure fun _ => .bind (ih _) fun _ => .pure) .pure

theorem keeps_hashRootFile (env : Env) (path : Path) :
    Keeps P (hashRootFile env path) :=
  .bind (keeps_getRootFileInfo hP) fun _ => .bind .ensure fun _ =>
    .bind (keeps_readChunks hP _ _) fun _ => .pure

theorem keeps_verifyRootFile (env : Env) : Keeps P (verifyRootFile env path expected) := by
  refine .ite ?_ (.bind (keeps_hashRootFile hP env path) fun _ => .ensure)
  refine .bind (.attempt (keeps_getRootFileInfo hP)) fun info => ?_
  split
  · exact .pure
  · exact .fail
  · exact .fail

theorem keeps_loadRootFile (env : Env) : Keeps P (loadRootFile env path expected) :=
  .bind .ensure fun _ => .bind (.mapError (keeps_readFileRangeAt hP)) fun _ =>
    .bind .ensure fun _ => .bind .ensure fun _ => .pure

end Steady

theorem keeps_cleanupSlot (hP : Stable R P) : Keeps P (cleanupSlot slot backups stages) := by
  have hremove : ∀ path : Path, (∀ target, path ≠ .target target) → Keeps P (removeIfPresent path) :=
    fun path hpath => .bind (.attempt (keeps_atomicDeleteRoot hP hpath)) fun _ => .pure
  refine .forEach (fun target => ?_) _
  have hbackup : Keeps P (if backups then removeIfPresent (.backup slot target) else pure ()) :=
    .ite (hremove (.backup slot target) nofun) .pure
  exact .ite (.bind (hremove (.stage slot target) nofun) fun _ => hbackup) hbackup

theorem keeps_validateCurrentState (hP : Steady P) : Keeps P (validateCurrentState env) :=
  .bind .read fun _ => .forEach (fun _ => keeps_verifyRootFile hP _) _

theorem Stable.mono (hP : Stable R P)
    (hR : ∀ memory memory', R' memory memory' → R memory memory') : Stable R' P :=
  { hP with memory := fun m memory' h => hP.memory m memory' (hR _ _ h) }

/-- A part of the memory besides. -/
theorem Stable.withMemory (hP : Stable R P) {f : Memory → α}
    (hR : ∀ memory memory', R' memory memory' → R memory memory' ∧ f memory' = f memory) :
    Stable R' fun m => P m ∧ f m.memory = a where
  moved m h := ⟨hP.moved m h.1, h.2⟩
  replaced m path file hpath h := ⟨hP.replaced m path file hpath h.1, h.2⟩
  asked m path bytes hpath h := ⟨hP.asked m path bytes hpath h.1, h.2⟩
  memory m memory' hsame h := ⟨hP.memory m memory' (hR _ _ hsame).1 h.1, (hR _ _ hsame).2.trans h.2⟩

end Stable

/-! ### Records and reports -/

section SameTask

variable {P : Board → Prop} (hP : Stable SameTask P) {e : Err}
include hP

theorem keeps_report (f : ActionResult → ActionResult) : Keeps P (report f) :=
  keeps_remember hP fun _ => ⟨rfl, rfl⟩

theorem keeps_setHealthy (healthy : Bool) : Keeps P (setHealthy healthy) :=
  keeps_remember hP fun _ => ⟨rfl, rfl⟩

theorem fails_actionFail (reason : ActionReason) :
    Triple P (actionFail reason e : Command α) Q (fun _ => P) :=
  .bind (keeps_report hP _) fun _ => .fail fun _ h => h

theorem fails_markRecoveryPending : Triple P (markRecoveryPending : Command α) Q (fun _ => P) :=
  .bind (keeps_report hP _) fun _ => .bind (keeps_setHealthy hP _) fun _ =>
    fails_actionFail hP _

theorem keeps_cancelled (options : Options) : Keeps P (cancelled options) :=
  .bind .read fun _ => .bind (keeps_remember hP fun _ => ⟨rfl, rfl⟩) fun _ => .pure

theorem keeps_setJournal {f : Journal → Journal}
    (hf : ∀ j, (f j).entries = j.entries) : Keeps P (setJournal f) :=
  keeps_remember hP fun memory => ⟨rfl, hf memory.journal⟩

theorem keeps_writeJournalRecord (env : Env) :
    Keeps P (writeJournalRecord env) := by
  refine .read_bind fun j => ?_
  -- The journal is the one that was read until its successor is remembered.
  have hj : Stable Eq fun m => P m ∧ m.memory.journal = j :=
    hP.withMemory (by rintro _ _ rfl; exact ⟨⟨rfl, rfl⟩, rfl⟩)
  refine .postError (E := fun _ m => P m ∧ m.memory.journal = j) ?_ fun _ _ h => h.1
  refine .bind Keeps.ensure fun _ => .bind Keeps.read fun slot =>
    .bind (keeps_atomicWriteRoot hj nofun) fun _ => ?_
  refine .modify fun m h => hP.memory m _ ⟨rfl, ?_⟩ h.1
  rw [h.2]

end SameTask

/-! ### Before anything is replaced -/

/-- The targets and the state are those of `m0`, and nobody else changes a target. -/
structure Untouched (m0 m : Board) : Prop where
  outside : m.outside = m0.outside
  targets : ∀ target, m.files (.target target) = m0.files (.target target)
  asked : ∀ target bytes, (Path.target target, bytes) ∉ m.asked
  state : m.memory.state = m0.memory.state

/-- Nobody but the machine changes a target. -/
def TargetsAlone (m : Board) : Prop :=
  ∀ n files target, m.outside n files (.target target) = files (.target target)

section Untouched

variable {m0 m : Board} {contents : List UInt8} {fuel : Nat} {m' : Board} {env : Env}
  {package : Package} {payloads : List (List UInt8)}

theorem stable_untouched (h0 : TargetsAlone m0) :
    Stable (fun memory memory' => memory'.state = memory.state) (Untouched m0) where
  moved m h :=
    { h with
      targets := fun target => by
        rw [Machine.moved, ← h.targets target, h.outside]
        exact h0 _ _ target }
  replaced m path file hpath h :=
    { h with
      targets := fun target => by
        rw [← h.targets target]
        exact update_of_ne (fun heq => hpath target heq.symm) _ _ }
  asked m path bytes hpath h :=
    { h with
      asked := fun target bytes' hmem => by
        rcases mem_cons.mp hmem with heq | hmem
        · exact hpath target (Prod.mk.inj heq).1.symm
        · exact h.asked target bytes' hmem }
  memory m memory' hstate h := { h with state := hstate.trans h.state }

theorem stable_untouched_task (h0 : TargetsAlone m0) : Stable SameTask (Untouched m0) :=
  (stable_untouched h0).mono fun _ _ h => h.1

theorem Untouched.still (h : Untouched m0 m) (h0 : TargetsAlone m0)
    (hfile : m0.files (.target target) = some contents) : Still (.target target) contents m :=
  ⟨(h.targets target).trans hfile, fun n files hfiles => by rw [h.outside, h0]; exact hfiles⟩

theorem readChunks_eq_ok {size : Nat} :
    ∀ {offset : Nat} {bytes : List UInt8} {m m' : Board}, Still path contents m →
      size - offset ≤ fuel → readChunks path size fuel offset m = (.ok bytes, m') →
      bytes = (contents.drop offset).take (size - offset) := by
  induction fuel with
  | zero =>
    intro offset bytes m m' _ hfuel h
    obtain ⟨rfl, -⟩ := pure_eq_ok.mp h
    rw [Nat.le_zero.mp hfuel, take_zero]
  | succ fuel ih =>
    intro offset bytes m m' hstill hfuel h
    rw [readChunks] at h
    split at h
    · obtain ⟨chunk, t, hread, h⟩ := bind_eq_ok.mp h
      obtain ⟨rfl, seen, hseen, hchunk⟩ := readFileRangeAt_eq_ok (mapError_eq_ok.mp hread)
      obtain ⟨_, u, hlength, h⟩ := bind_eq_ok.mp h
      obtain ⟨-, rfl⟩ := ensure_eq_ok.mp hlength
      obtain ⟨rest, v, hrest, h⟩ := bind_eq_ok.mp h
      obtain ⟨rfl, -⟩ := pure_eq_ok.mp h
      have hpositive : min (size - offset) ioBufferSize ≠ 0 := by unfold ioBufferSize; omega
      rw [ih hstill.moved (by omega) hrest, hchunk, hstill.seen hseen, ← drop_drop, ← take_add]
      congr 1
      omega
    · obtain ⟨rfl, -⟩ := pure_eq_ok.mp h
      rw [Nat.sub_eq_zero_of_le (by omega), take_zero]

theorem hashRootFile_eq_ok {file : FileState}
    (hstill : Still path contents m) (h : hashRootFile env path m = (.ok file, m')) :
    file = ⟨true, contents.length, env.crypto.sha256 contents⟩ := by
  obtain ⟨size, t, hinfo, h⟩ := bind_eq_ok.mp h
  obtain ⟨seen, t', hcontents, hinfo⟩ := bind_eq_ok.mp hinfo
  obtain ⟨rfl, hseen⟩ := contents_eq_ok hcontents
  obtain ⟨rfl, rfl⟩ := pure_eq_ok.mp hinfo
  obtain rfl := hstill.seen hseen
  obtain ⟨_, u, hsize, h⟩ := bind_eq_ok.mp h
  obtain ⟨-, rfl⟩ := ensure_eq_ok.mp hsize
  obtain ⟨bytes, v, hchunks, h⟩ := bind_eq_ok.mp h
  obtain ⟨rfl, -⟩ := pure_eq_ok.mp h
  rw [readChunks_eq_ok hstill.moved (by omega) hchunks, drop_zero, Nat.sub_zero, take_length]

theorem FileState.eq_of_same {first second : FileState} (h : first.same second = true)
    (hpresent : second.present = true) : second = first := by
  obtain ⟨present, size, hash⟩ := first
  obtain ⟨present', size', hash'⟩ := second
  cases hpresent
  simp only [FileState.same, Bool.and_eq_true, Bool.or_eq_true, beq_iff_eq] at h
  obtain ⟨rfl, h | ⟨rfl, rfl⟩⟩ := h
  · cases h
  · rfl

/-- A target file that is as expected. -/
theorem verifyRootFile_eq_ok {u : Unit}
    (h0 : TargetsAlone m0) (hm : Untouched m0 m) (hpresent : expected.present = true)
    (h : verifyRootFile env (.target target) expected m = (.ok u, m')) :
    ∃ old, m0.files (.target target) = some old
      ∧ expected = ⟨true, old.length, env.crypto.sha256 old⟩ := by
  rw [verifyRootFile, if_neg (by rw [hpresent]; decide)] at h
  obtain ⟨file, t, hhash, h⟩ := bind_eq_ok.mp h
  obtain ⟨hsame, -⟩ := ensure_eq_ok.mp h
  cases hfile : m0.files (.target target) with
  | none =>
    -- The file was there when its size was looked up.
    obtain ⟨size, t', hinfo, -⟩ := bind_eq_ok.mp hhash
    obtain ⟨seen, t'', hcontents, -⟩ := bind_eq_ok.mp hinfo
    obtain ⟨-, hseen⟩ := contents_eq_ok hcontents
    have := ((stable_untouched h0).moved m hm).targets target
    rw [hseen, hfile] at this
    cases this
  | some old =>
    refine ⟨old, rfl, ?_⟩
    rw [← hashRootFile_eq_ok (hm.still h0 hfile) hhash]
    exact FileState.eq_of_same hsame hpresent

theorem mem_targets : ∀ target : Target, target ∈ ([0, 1, 2] : List Target) := by decide

/-- The state describes the targets. -/
def Described (env : Env) (m0 : Board) (target : Target) : Prop :=
  (m0.memory.state.current target).present = true → ∃ old, m0.files (.target target) = some old
    ∧ m0.memory.state.current target = ⟨true, old.length, env.crypto.sha256 old⟩

theorem validateCurrentState_described (h0 : TargetsAlone m0) :
    Triple (Untouched m0) (validateCurrentState env)
      (fun _ m => Untouched m0 m ∧ ∀ target, Described env m0 target) (fun _ => Untouched m0) := by
  refine .read_bind fun s => ?_
  refine .known (fun m h => h.2.symm.trans h.1.state) ?_
  rintro rfl
  refine .weaken (.forEach_done
    (I := fun done m => Untouched m0 m ∧ ∀ target ∈ done, Described env m0 target)
    fun done target rest _ => .learn fun hdone => .post (.also (R := fun _ => Described env m0 target)
      (keeps_verifyRootFile (stable_untouched h0).moved _) ?_) ?_) (fun m h => ⟨h.1, nofun⟩)
    (fun _ m h => ⟨h.1, fun target => h.2 target (mem_targets target)⟩) (fun _ _ h => h)
  · intro m u m' hm hrun hpresent
    exact verifyRootFile_eq_ok h0 hm hpresent hrun
  · intro u m h
    exact ⟨h.1, forall_mem_append.mpr ⟨hdone, forall_mem_singleton.mpr h.2⟩⟩

/-- An entry of the journal that says what the target holds, and what a verified package has for
it. -/
structure Licensed (env : Env) (m0 : Board) (entry : JournalEntry) : Prop where
  old : ∃ old, m0.files (.target entry.target) = some old
    ∧ entry.oldFile = ⟨true, old.length, env.crypto.sha256 old⟩
  new : ∃ package payloads, Accepted env.crypto m0.memory.state.installed package payloads
    ∧ ∃ item ∈ package.entries, targetId item.path = some entry.target
      ∧ entry.newFile = ⟨true, item.payloadSize, item.payloadHash⟩

theorem verifyPackage_accepted (h0 : TargetsAlone m0) :
    Triple (Untouched m0) (verifyPackage env path)
      (fun package m => Untouched m0 m
        ∧ ∃ payloads, Accepted env.crypto m0.memory.state.installed package payloads)
      (fun _ => Untouched m0) := by
  have hstable := stable_untouched_task h0
  refine .read_bind fun installed => ?_
  refine .known (c := ∀ base, installed = some base → base = m0.memory.state.installed)
    (fun m h base hbase => ?_) fun hinstalled => ?_
  · rw [← h.2, Memory.installed] at hbase
    split at hbase
    · rw [← h.1.state]; exact (Option.some.inj hbase).symm
    · cases hbase
  have hverify := Triple.also (keeps_verifyInternal hstable.moved env.crypto installed path)
    (R := fun package => ∃ payloads, Accepted env.crypto m0.memory.state.installed package payloads) (by
      intro m package m' _ hrun
      obtain ⟨base, hbase, payloads, hverified⟩ := verifyInternal_eq_ok hrun
      rw [← hinstalled base hbase]
      exact ⟨payloads, hverified.accepted⟩)
  refine .pre ?_ fun _ h => h.1
  refine .bind (Q := fun verified m => Outcome (fun package m => Untouched m0 m
      ∧ ∃ payloads, Accepted env.crypto m0.memory.state.installed package payloads) (fun _ => Untouched m0)
      (verified, m)) (.mapError (.attempt hverify)) fun verified => ?_
  cases verified with
  | ok package => exact .pure fun _ h => h
  | error e => exact .bind (keeps_report hstable _) fun _ => fails_actionFail hstable _

theorem journalEntry_eq_ok {s : State} {entry : Entry} {e : JournalEntry}
    (h : journalEntry s entry = .ok e) : targetId entry.path = some e.target
      ∧ (s.current e.target).present = true ∧ e.oldFile = s.current e.target
      ∧ e.newFile = ⟨true, entry.payloadSize, entry.payloadHash⟩ := by
  rw [journalEntry] at h
  split at h
  · cases h
  rename_i target htarget
  obtain ⟨hpresent, h⟩ := ite_error_eq_ok.mp h
  cases h
  exact ⟨htarget, by simpa using hpresent, rfl, rfl⟩

theorem buildApplyJournal_licensed
    (haccepted : Accepted env.crypto m0.memory.state.installed package payloads)
    (hdescribed : ∀ target, Described env m0 target) :
    Triple (Untouched m0) (buildApplyJournal env package)
      (fun j m => Untouched m0 m ∧ ∀ entry ∈ j.entries, Licensed env m0 entry)
      (fun _ => Untouched m0) := by
  refine .read_bind fun memory => ?_
  refine .known (c := memory.state = m0.memory.state)
    (fun m h => by rw [← h.2]; exact h.1.state) fun hstate => ?_
  refine .pre ?_ fun _ h => h.1
  refine .bind Keeps.ensure fun _ => .lift_bind (fun _ _ _ h => h) fun entries hentries =>
    .bind Keeps.read fun _ => .lift_bind (fun _ _ _ h => h) fun _ _ =>
    .pure fun m hm => ⟨hm, fun entry hentry => ?_⟩
  rw [hstate] at hentries
  obtain ⟨item, hitem, hbuilt⟩ := exists_left_of_forall₂ (mapM_eq_ok hentries) hentry
  obtain ⟨htarget, hpresent, hold, hnew⟩ := journalEntry_eq_ok hbuilt
  refine ⟨?_, package, payloads, haccepted, item, hitem, htarget, hnew⟩
  rw [hold]
  exact hdescribed _ hpresent

theorem prepareApply_licensed (h0 : TargetsAlone m0) :
    Triple (Untouched m0) (prepareApply env path)
      (fun prepared m => Untouched m0 m ∧ ∀ entry ∈ prepared.2.entries, Licensed env m0 entry)
      (fun _ => Untouched m0) := by
  have hstable := stable_untouched_task h0
  refine .bind (verifyPackage_accepted h0) fun package => .learn ?_
  rintro ⟨payloads, haccepted⟩
  exact .bind (keeps_report hstable _) fun _ => .attempt_bind
    (.bind (validateCurrentState_described h0) fun _ => .learn fun hdescribed =>
      buildApplyJournal_licensed haccepted hdescribed)
    (fun j => .pure fun _ h => h) fun _ => fails_actionFail hstable _

end Untouched

/-! ### Staging -/

section Staging

variable {m0 : Board} {P : Board → Prop} {env : Env} {options : Options} {package : Package}
  {prepared : Journal}

section

variable (hP : Stable SameTask P) (env : Env) (options : Options)
include hP

theorem keeps_stageFile (path : Path)
    (slot : Slot) (item : Entry × JournalEntry) : Keeps P (stageFile env options path slot item) :=
  .bind (keeps_cancelled hP options) fun _ => .bind .ensure fun _ =>
    .bind (.bind .ensure fun _ =>
      .bind (.mapError (keeps_readFileRangeAt hP.moved)) fun _ =>
      .bind .ensure fun _ => .bind .ensure fun _ => .pure) fun _ =>
    .bind (keeps_atomicWriteRoot hP nofun) fun _ =>
    keeps_verifyRootFile hP.moved _

theorem keeps_backupFile (slot : Slot)
    (entry : JournalEntry) : Keeps P (backupFile env options slot entry) :=
  .bind (keeps_cancelled hP options) fun _ => .bind .ensure fun _ =>
    .bind (keeps_loadRootFile hP.moved _) fun _ =>
    .bind (keeps_atomicWriteRoot hP nofun) fun _ =>
    keeps_verifyRootFile hP.moved _

theorem keeps_stageApplyFiles (path : Path)
    (package : Package) (j : Journal) : Keeps P (stageApplyFiles env options path package j) :=
  .bind (keeps_cleanupSlot hP) fun _ =>
    .bind (.forEach (keeps_stageFile hP env options path j.slot) _) fun _ =>
    .forEach (keeps_backupFile hP env options j.slot) _

end

/-- A transaction that has started has its journal in memory. -/
theorem startApplyTransaction_untouched (h0 : TargetsAlone m0) :
    Triple (Untouched m0) (startApplyTransaction env options path package prepared)
      (fun _ m => Untouched m0 m ∧ m.memory.journal.entries = prepared.entries)
      (fun _ => Untouched m0) := by
  have hstable := stable_untouched_task h0
  have hjournal : ∀ f : Journal → Journal, Keeps (Untouched m0) (setJournal f) :=
    fun f => keeps_remember (stable_untouched h0) fun _ => rfl
  have htask : Stable SameTask fun m => Untouched m0 m ∧ m.memory.journal.entries = prepared.entries :=
    hstable.withMemory fun _ _ h => ⟨h, h.2⟩
  refine .attempt_bind (keeps_stageApplyFiles hstable env options path package prepared)
    (fun _ => ?_) fun _ => .bind (keeps_cleanupSlot hstable) fun _ =>
      .ite (fun _ => fails_actionFail hstable _) (fun _ => fails_actionFail hstable _)
  exact .bind
    (.modify fun m h => ⟨(stable_untouched h0).memory m _ rfl h, rfl⟩) fun _ =>
    .attempt_bind (keeps_writeJournalRecord htask env) (fun _ => .pure fun _ h => h)
      fun _ => .pre (.bind (keeps_cleanupSlot hstable) fun _ =>
        .bind (hjournal _) fun _ => fails_actionFail hstable _) fun _ h => h.1

end Staging

/-! ### Replacing -/

/-- All that was to be written to targets is allowed. -/
def OnlyWrites (allowed : Target → List UInt8 → Prop) (m : Board) : Prop :=
  ∀ target bytes, (Path.target target, bytes) ∈ m.asked → allowed target bytes

/-- And the journal in memory has the entries. -/
def Guarded (allowed : Target → List UInt8 → Prop) (entries : List JournalEntry) (m : Board) : Prop :=
  OnlyWrites allowed m ∧ m.memory.journal.entries = entries

/-- All the bytes that would be taken for the file are allowed. -/
def Allows (env : Env) (allowed : Target → List UInt8 → Prop) (target : Target) (file : FileState) : Prop :=
  ∀ bytes, bytes.length = file.size → env.crypto.sha256 bytes = file.hash → allowed target bytes

section Replacing

variable {allowed : Target → List UInt8 → Prop} {entries : List JournalEntry} {env : Env}
  {rest : List JournalEntry} {slot : Slot}

theorem stable_onlyWrites : Stable (fun _ _ => True) (OnlyWrites allowed) where
  moved _ h := h
  replaced _ _ _ _ h := h
  asked m path bytes hpath h := by
    intro target bytes' hmem
    rcases mem_cons.mp hmem with heq | hmem
    · exact absurd (Prod.mk.inj heq).1.symm (hpath target)
    · exact h target bytes' hmem
  memory _ _ _ h := h

theorem stable_onlyWrites_task : Stable SameTask (OnlyWrites allowed) :=
  stable_onlyWrites.mono fun _ _ _ => trivial

theorem stable_guarded : Stable SameTask (Guarded allowed entries) :=
  stable_onlyWrites.withMemory (f := fun memory => memory.journal.entries) fun _ _ h => ⟨trivial, h.2⟩

theorem keeps_replaceFromAlias (hallows : Allows env allowed target expected) :
    Keeps (Guarded allowed entries) (replaceFromAlias env path target expected) := by
  have hstable : Stable SameTask (Guarded allowed entries) := stable_guarded
  refine Triple.bind (Q := fun bytes m => Guarded allowed entries m ∧ allowed target bytes) ?_
    fun bytes => ?_
  · -- What was loaded was hashed.
    refine .also (keeps_loadRootFile hstable.moved _) ?_
    intro m bytes m' _ h
    obtain ⟨_, t, -, h⟩ := bind_eq_ok.mp h
    obtain ⟨read, t, -, h⟩ := bind_eq_ok.mp h
    obtain ⟨_, t, hlength, h⟩ := bind_eq_ok.mp h
    obtain ⟨_, t, hhash, h⟩ := bind_eq_ok.mp h
    obtain ⟨rfl, -⟩ := pure_eq_ok.mp h
    exact hallows read (ensure_eq_ok.mp hlength).1 (ensure_eq_ok.mp hhash).1
  · refine .learn fun hbytes => .bind ?_ fun _ => keeps_verifyRootFile hstable.moved _
    refine .bind (.modify fun m h => ⟨?_, h.2⟩)
      fun _ => .bind Keeps.ensure fun _ => .bind (keeps_look hstable.moved) fun _ =>
      .bind Keeps.ensure fun _ => .modify fun m h => h
    intro target' bytes' hmem
    rcases mem_cons.mp hmem with heq | hmem
    · cases heq
      exact hbytes
    · exact h.1 target' bytes' hmem

theorem keeps_replaceFromBackups {expected : JournalEntry → FileState} :
    ∀ {index : Nat}, (∀ entry ∈ rest, Allows env allowed entry.target (expected entry)) →
      Keeps (Guarded allowed entries) (replaceFromBackups env slot expected index rest) := by
  induction rest with
  | nil => intro index _; exact .pure
  | cons entry rest ih =>
    intro index hallows
    exact .bind (keeps_replaceFromAlias (hallows entry mem_cons_self)) fun _ =>
      .bind (keeps_setJournal stable_guarded fun _ => rfl) fun _ =>
      .bind (.mapError (keeps_writeJournalRecord stable_guarded env)) fun _ =>
      ih fun e he => hallows e (mem_cons_of_mem _ he)

theorem keeps_clearJournal : Keeps (OnlyWrites allowed) (clearJournal env) := by
  have hset : ∀ f, Keeps (OnlyWrites allowed) (setJournal f) :=
    fun f => keeps_remember stable_onlyWrites fun _ => trivial
  refine .bind .read fun previous => .bind (hset _) fun _ =>
    .bind (.attempt (keeps_writeJournalRecord stable_onlyWrites_task env)) fun written => ?_
  cases written with
  | ok u => exact .pure
  | error e => exact .bind (hset _) fun _ => .fail

theorem restoreInterruptedApply_guarded
    (hallows : ∀ entry ∈ entries, Allows env allowed entry.target entry.oldFile) :
    Triple (Guarded allowed entries) (restoreInterruptedApply env) (fun _ => OnlyWrites allowed)
      (fun _ => OnlyWrites allowed) := by
  have hstable : Stable SameTask (Guarded allowed entries) := stable_guarded
  have hforget : ∀ {α : Type} {x : Command α}, Keeps (Guarded allowed entries) x →
      Triple (Guarded allowed entries) x (fun _ => Guarded allowed entries)
        (fun _ => OnlyWrites allowed) :=
    fun h => .postError h fun _ _ h => h.1
  refine .bind (hforget (keeps_setJournal hstable fun _ => rfl)) fun _ => ?_
  refine .read_bind fun j => .known (c := j.entries = entries)
    (fun m h => by rw [← h.2]; exact h.1.2) fun hentries => ?_
  refine .pre ?_ fun _ h => h.1
  refine .bind (hforget (keeps_replaceFromBackups (by rw [hentries]; exact hallows))) fun _ =>
    .bind (hforget (.mapError (keeps_validateCurrentState hstable.moved))) fun _ =>
    .bind (hforget (keeps_cleanupSlot hstable)) fun _ =>
    .pre keeps_clearJournal fun _ h => h.1

theorem applyRecoverFailure_guarded {reason : ActionReason} {e : Err}
    (hallows : ∀ entry ∈ entries, Allows env allowed entry.target entry.oldFile) :
    Triple (Guarded allowed entries) (applyRecoverFailure env reason e) Q (fun _ => OnlyWrites allowed) := by
  exact .attempt_bind (restoreInterruptedApply_guarded hallows)
    (fun _ => .bind (keeps_setHealthy stable_onlyWrites_task _) fun _ =>
      fails_actionFail stable_onlyWrites_task _)
    fun _ => fails_markRecoveryPending stable_onlyWrites_task

theorem replaceApplyTargets_guarded {options : Options}
    (hold : ∀ entry ∈ entries, Allows env allowed entry.target entry.oldFile) :
    ∀ {index : Nat}, (∀ entry ∈ rest, Allows env allowed entry.target entry.newFile) →
      Triple (Guarded allowed entries) (replaceApplyTargets env options slot index rest)
        (fun _ => Guarded allowed entries) (fun _ => OnlyWrites allowed) := by
  have hstable : Stable SameTask (Guarded allowed entries) := stable_guarded
  induction rest with
  | nil => intro index _; exact .pure fun _ h => h
  | cons entry rest ih =>
    intro index hnew
    refine .bind ((keeps_cancelled hstable options).postError fun _ _ h => h.1) fun stop =>
      .ite (fun _ => applyRecoverFailure_guarded hold) fun _ => .attempt_bind
      (keeps_replaceFromAlias (hnew entry mem_cons_self)) (fun _ => ?_)
      fun _ => applyRecoverFailure_guarded hold
    refine .attempt_bind (.bind (keeps_setJournal hstable fun _ => rfl) fun _ =>
      .bind (keeps_report hstable _) fun _ => keeps_writeJournalRecord hstable env) (fun _ => ?_)
      fun _ => applyRecoverFailure_guarded hold
    refine .bind (.read fun _ h => h) fun failAfter =>
      .ite (fun _ => ?_) fun _ => ih fun e he => hnew e (mem_cons_of_mem _ he)
    exact .postError (.bind (keeps_remember hstable fun _ => ⟨rfl, rfl⟩) fun _ =>
      fails_markRecoveryPending hstable) fun _ _ h => h.1

theorem keeps_finalizeCommitted : Keeps (OnlyWrites allowed) (finalizeCommitted env) := by
  have hstable : Stable (fun _ _ => True) (OnlyWrites allowed) := stable_onlyWrites
  have hend : Keeps (OnlyWrites allowed) (do clearJournal env; validateCurrentState env) :=
    .bind keeps_clearJournal fun _ => keeps_validateCurrentState hstable.moved
  have hwrite : ∀ s, Keeps (OnlyWrites allowed) (writeStateRecord env s) := fun s =>
    .bind .ensure fun _ => .bind .read fun slot =>
    .bind (keeps_atomicWriteRoot hstable nofun) fun _ =>
    .bind (keeps_remember hstable fun _ => trivial) fun _ => .pure
  refine .bind .read fun s => .bind .read fun j => ?_
  refine .bind (.forEach (fun _ => keeps_verifyRootFile hstable.moved _) _) fun _ =>
    .bind .lift fun next => .bind (hwrite next) fun next' => ?_
  refine .bind (keeps_remember hstable fun _ => trivial) fun _ =>
    .bind (keeps_cleanupSlot hstable) fun _ => ?_
  exact .ite (.bind (keeps_cleanupSlot hstable) fun _ => hend) hend

theorem keeps_commitTransaction : Keeps (OnlyWrites allowed) (commitTransaction env) := by
  have hstable : Stable SameTask (OnlyWrites allowed) := stable_onlyWrites_task
  exact .bind (keeps_setJournal hstable fun _ => rfl) fun _ => .attempt_bind
    (.bind (keeps_writeJournalRecord hstable env) fun _ => keeps_finalizeCommitted)
    (fun _ => .bind (keeps_report hstable _) fun _ => keeps_setHealthy hstable _)
    fun _ => fails_markRecoveryPending hstable

theorem applyFile_onlyWrites (allowed : Target → List UInt8 → Prop) (env : Env) (options : Options)
    (path : Path) {m0 : Board} (h0 : TargetsAlone m0)
    (hallows : ∀ entry, Licensed env m0 entry → Allows env allowed entry.target entry.oldFile
      ∧ Allows env allowed entry.target entry.newFile) :
    Triple (Untouched m0) (applyFile env options path) (fun _ => OnlyWrites allowed)
      (fun _ => OnlyWrites allowed) := by
  have hstable := stable_untouched_task h0
  have hnothing : ∀ m, Untouched m0 m → OnlyWrites allowed m :=
    fun m h target bytes hmem => absurd hmem (h.asked target bytes)
  have hforget : ∀ {α : Type} {x : Command α} {Q : α → Board → Prop},
      Triple (Untouched m0) x Q (fun _ => Untouched m0) →
      Triple (Untouched m0) x Q (fun _ => OnlyWrites allowed) :=
    fun h => .postError h fun _ m h => hnothing m h
  refine .bind (hforget (keeps_report hstable _)) fun _ =>
    .bind (hforget Keeps.read) fun memory =>
    .ite (fun _ => hforget (fails_actionFail hstable _)) fun _ =>
    .ite (fun _ => hforget (fails_actionFail hstable _)) fun _ =>
    .bind (hforget (prepareApply_licensed h0)) ?_
  rintro ⟨package, prepared⟩
  refine .learn fun hlicensed => .ite (fun _ => .pure fun m h => hnothing m h) fun _ =>
    .ite (fun _ => ?_) fun _ => ?_
  · exact .bind (hforget (keeps_remember hstable fun _ => ⟨rfl, rfl⟩)) fun _ =>
      hforget (fails_actionFail hstable _)
  · refine .bind (hforget
      (startApplyTransaction_untouched h0)) fun _ => ?_
    refine .pre (P := Guarded allowed prepared.entries) ?_ fun m h => ⟨hnothing m h.1, h.2⟩
    exact .bind (replaceApplyTargets_guarded
      (fun entry hentry => (hallows entry (hlicensed entry hentry)).1)
      (fun entry hentry => (hallows entry (hlicensed entry hentry)).2)) fun _ =>
      Triple.pre keeps_commitTransaction fun _ h => h.1

end Replacing

/-- The bytes have the hash and size of an entry of a package that was verified for the version that
is installed. -/
def Signed (env : Env) (m : Board) (target : Target) (bytes : List UInt8) : Prop :=
  ∃ package payloads, Accepted env.crypto m.memory.state.installed package payloads
    ∧ ∃ item ∈ package.entries, targetId item.path = some target
      ∧ env.crypto.sha256 bytes = item.payloadHash ∧ bytes.length = item.payloadSize

/-- **Only signed bytes are installed.** Others may change every file but the targets, at any moment.
Each byte string written to a target is its old content or signed; and what the verifier accepts is
tiled by its header, its table with increasing paths, its payloads and its signature. -/
theorem applyFile_writes_signed (env : Env) (options : Options) (path : Path) (m : Board)
    (hasked : m.asked = []) (halone : TargetsAlone m)
    (hcollision : ∀ target old bytes, m.files (.target target) = some old →
      (Path.target target, bytes) ∈ (applyFile env options path m).2.asked →
      env.crypto.sha256 bytes = env.crypto.sha256 old → bytes = old) :
    (∀ target bytes, (Path.target target, bytes) ∈ (applyFile env options path m).2.asked →
      m.files (.target target) = some bytes ∨ Signed env m target bytes)
    ∧ ∀ (m₁ m₂ : Board) installed package,
      verifyInternal env.crypto installed path m₁ = (.ok package, m₂) →
      ∃ base, installed = some base ∧ ∃ payloads,
        Verified env.crypto base path m₁ package payloads := by
  refine ⟨?_, fun m₁ m₂ installed package h => verifyInternal_eq_ok h⟩
  have hrun := applyFile_onlyWrites (fun target bytes =>
      (∃ old, m.files (.target target) = some old ∧ env.crypto.sha256 bytes = env.crypto.sha256 old)
      ∨ Signed env m target bytes) env options path halone ?_
  · have hstart : Untouched m m :=
      ⟨rfl, fun _ => rfl, fun target bytes => hasked ▸ not_mem_nil, rfl⟩
    intro target bytes hmem
    rcases hrun.final hstart target bytes hmem with ⟨old, hold, hhash⟩ | hsigned
    · left
      rw [hcollision target old bytes hold hmem hhash]
      exact hold
    · exact .inr hsigned
  -- an entry's old hash is that of a file that was there, its new one was signed
  · intro entry hlicensed
    obtain ⟨old, hfile, hold⟩ := hlicensed.old
    obtain ⟨package, payloads, haccepted, item, hitem, htarget, hnew⟩ := hlicensed.new
    refine ⟨fun bytes _ hhash => .inl ⟨old, hfile, ?_⟩, fun bytes hlength hhash =>
      .inr ⟨package, payloads, haccepted, item, hitem, htarget, ?_, ?_⟩⟩
    · rw [hhash, hold]
    · rw [hhash, hnew]
    · rw [hlength, hnew]

/-! ### A small update

One byte for each target, a hash that takes the first bytes, a signature that is the sum of the
message, and a package with a new byte for the first target. -/

def sampleCrypto : Crypto where
  sha256 bytes := Vector.ofFn fun i : Fin 32 => bytes.getD i 0
  ed25519 signature _ message := signature == padded signatureSize [message.foldl (· + ·) 0]

def sampleEnv : Env where
  crypto := sampleCrypto
  selfTest := true
  fat12 := true
  info _ := some ⟨512, 1, 2000⟩

def sampleTable : List UInt8 :=
  padded pathSize (targetPath 0) ++ le32 256 ++ le32 1 ++ le32 1 ++ le16 1 ++ le16 0 ++ le16 1 ++ le16 0
    ++ padded 32 [9] ++ List.replicate 12 0

/-- From version 0.1.0 to 0.2.0. -/
def sampleHeader : List UInt8 :=
  [90, 85, 80, 68] ++ le16 1 ++ le16 headerSize ++ le32 1 ++ le32 0 ++ le32 321 ++ le32 headerSize
    ++ le32 entrySize ++ le32 256 ++ le32 1 ++ le32 257 ++ le16 signatureSize ++ le16 1 ++ le16 1 ++ le16 1
    ++ le16 entrySize ++ le16 0 ++ versionBytes ⟨0, 1, 0⟩ ++ versionBytes ⟨0, 2, 0⟩ ++ le32 0 ++ le32 0
    ++ Trust.keyId ++ sampleTable.take 32 ++ List.replicate 8 0

def sampleContent : List UInt8 := sampleHeader ++ sampleTable ++ [9]

def samplePath : Path := .other "UPDATE.ZUP"

/-- The package, the targets and nothing else. -/
def sampleFiles : Files Path
  | .target target => some (byTarget [1] [2] [3] target)
  | .other "UPDATE.ZUP" => some (sampleContent
      ++ padded signatureSize [(domain ++ sampleContent).foldl (· + ·) 0])
  | _ => none

def sampleOptions : Options := ⟨false, fun _ => false⟩

/-- Started, and others delete the package as soon as its payload was staged. -/
def sampleBoard : Board :=
  { Machine.fresh sampleFiles { Memory.blank with
      ready := true, healthy := true
      state := { State.compileTime with
        current := fun target => ⟨true, 1, sampleCrypto.sha256 (byTarget [1] [2] [3] target)⟩ } } with
    outside := fun n files => if n < 19 then files else update files samplePath none }

/-- The new byte was written, and it was signed. -/
theorem sampleBoard_writes_signed :
    (Path.target 0, [9]) ∈ (applyFile sampleEnv sampleOptions samplePath sampleBoard).2.asked
      ∧ sampleBoard.files (.target 0) = some [1] ∧ Signed sampleEnv sampleBoard 0 [9] := by
  have hwritten : (applyFile sampleEnv sampleOptions samplePath sampleBoard).2.asked.filter
      (fun item => ∃ target, item.1 = Path.target target) = [(.target 0, [9])] := by decide +kernel
  have hmem : (Path.target 0, [9]) ∈ (applyFile sampleEnv sampleOptions samplePath sampleBoard).2.asked :=
    mem_of_mem_filter (hwritten ▸ mem_singleton_self _)
  have halone : TargetsAlone sampleBoard := by
    intro n files target
    show (if n < 19 then files else update files samplePath none) (.target target) = _
    split
    · rfl
    · exact update_of_ne (by simp [samplePath]) _ _
  have hsigned := (applyFile_writes_signed sampleEnv sampleOptions samplePath sampleBoard rfl halone
    (fun target old bytes hold hasked hhash => ?_)).1 0 [9] hmem
  · exact ⟨hmem, rfl, hsigned.resolve_left (by decide)⟩
  · have hone : (Path.target target, bytes) ∈ [(Path.target 0, [9])] := by
      rw [← hwritten]
      exact mem_filter.mpr ⟨hasked, by simp⟩
    cases mem_singleton.mp hone
    cases hold
    exact absurd hhash (by decide +kernel)

end ZephyrOS.Zupd
