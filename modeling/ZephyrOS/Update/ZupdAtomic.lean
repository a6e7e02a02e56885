import ZephyrOS.Update.ZupdRollback

/-!
# Updates are atomic

The two operations and everything that starting up does after them, over whole histories: the power
fails in the middle of an operation, then any number of times in the middle of `update_init`, and then
one `update_init` runs to its end. It makes all of the targets old or all of them new, provided that
every start is `Startable`.

There are two gaps. Recovery deletes the backups before the journal that asks for them, so a power
loss between the two leaves a volume that is never recovered. And the runtime has a record of its own:
where an update changes the version and no target, that record still fits and brings the old version
back.
-/

namespace ZephyrOS.Zupd

open Lib RootFiles List
open Update (Version Base Slot bySlot)

variable {env : Env} {files : Files Path} {jslot : Option Slot}
  {Q : Scene → Prop} {trail : List (Files Path)} {task : Task env} {new : Target → Option (List UInt8)}
  {version : Base} {v₀ : Scene} {m : Board} {j : Journal} {slot : Option Slot} {options : Options}
  {failAfter : Nat} {runtime : Option Runtime}

/-! ### Healthy volumes -/

/-- The machine after `update_init` on a volume. -/
def boot (env : Env) (runtime : Option Runtime) (files : Files Path) : Board :=
  (init env runtime (Machine.fresh files Memory.blank)).2

theorem calm_loadAndRecover_quiet {j : Journal}
    (hj : JournalAt env files jslot j) (hkind : j.kind = .none) :
    Calmly (fun v => v = ⟨files, [], startMemory⟩) (loadAndRecover env)
      (fun _ v => ∃ slot s, StateAt env files slot s ∧ (slot = none → Baseline env files s)
        ∧ (∀ target, Describes env (s.current target) (files (.target target)))
        ∧ v = ⟨files, [], heldMemory slot s jslot j⟩)
      (fun _ v => v.memory.healthy = false) := by
  -- The journal is loaded whether or not the state was.
  have hload : ∀ v : Scene, v.files = files → Calmly (fun w => w = v) (loadJournalRecords env)
      (fun _ w => w = withJournal v jslot j) (fun _ _ => False) := by
    intro v hfiles
    refine .conseq calm_loadJournalRecords ?_ ?_
    · rintro _ w ⟨u, jslot', j', rfl, hj', rfl⟩
      rw [hfiles] at hj'
      obtain ⟨rfl, rfl⟩ := hj'.unique hj
      rfl
    · rintro e w ⟨rfl, hbad⟩
      rw [hfiles] at hbad
      exact absurd hj (hbad jslot j)
  refine .attempt_bind calm_loadStateRecords (fun _ => .intro fun v hv => ?_)
    fun e => .intro fun v hv => ?_
  · obtain ⟨-, slot, s, rfl, hs, hbaseline, rfl⟩ := hv
    refine .attempt_bind (hload _ rfl) (fun _ => .lift_bind nofun fun _ _ =>
      .lift_bind nofun fun _ _ => .bind
        (Q := fun _ w => w = ⟨files, [], heldMemory slot s jslot j⟩) (.remember ?_) fun _ => ?_)
      fun _ => .never
    · rintro w rfl
      rw [adoptJournal_eq (.inr (show j.kind ≠ .apply by rw [hkind]; exact nofun))]
      rfl
    refine .bind (Q := fun _ w => w = ⟨files, [], heldMemory slot s jslot j⟩) ?_ fun _ => ?_
    · refine .inspect_eq (fun w hw => by rw [hw]) ?_
      rw [if_pos hkind]
      exact .pure fun _ h => h
    · refine .conseq (calm_validateCurrentState (s := s) ?_) ?_ ?_
      · rintro w rfl; rfl
      · rintro _ w ⟨rfl, hdescribed⟩
        exact ⟨slot, s, hs, hbaseline, hdescribed, rfl⟩
      · rintro e w ⟨rfl, -⟩
        rfl
  · obtain ⟨rfl, -⟩ := hv
    refine .attempt_bind (hload _ rfl) (fun _ => .lift_bind ?_ nofun) fun _ => .never
    rintro e' - w rfl
    rfl

/-- What a triple says about `boot`. -/
theorem boot_of_calm
    (h : Calmly (fun v => v.files = files ∧ v.passed = []) (init env runtime) (fun _ => Q) (fun _ => Q)) :
    (boot env runtime files).Calm ∧ Q (boot env runtime files).view := h.final Machine.calm_fresh ⟨rfl, rfl⟩

/-- A healthy volume without a journal is taken as it is. -/
theorem settled_boot (henv : env.Ready)
    (hquiet : ∃ slot j, JournalAt env files slot j ∧ j.kind = .none)
    (hhealthy : (boot env none files).memory.healthy = true) :
    (boot env none files).Calm ∧ Settled env (boot env none files).view ∧ (boot env none files).files = files
      ∧ (boot env none files).passed = [] ∧ (boot env none files).memory.result = ActionResult.blank := by
  obtain ⟨jslot, j, hj, hkind⟩ := hquiet
  obtain ⟨hcalm, hview | hbad⟩ := boot_of_calm (calm_init_cases henv (fun _ _ => agrees_none) (calm_loadAndRecover_quiet hj hkind))
  · obtain ⟨u, ⟨slot, s, hs, hbaseline, hdescribed, rfl⟩, hview⟩ := hview
    have hfiles : (boot env none files).files = files := congrArg View.files hview
    have hpassed : (boot env none files).passed = [] := congrArg View.passed hview
    have hresult : (boot env none files).memory.result = ActionResult.blank :=
      congrArg (fun v : Scene => v.memory.result) hview
    refine ⟨hcalm, ?_, hfiles, hpassed, hresult⟩
    rw [hview]
    exact ⟨rfl, rfl, hj, hkind, hs, hdescribed, hbaseline⟩
  · exact absurd (hhealthy.symm.trans hbad) (by simp)

/-! ### Operations and interruptions -/

/-- `update_apply_file` and `update_rollback`. -/
inductive Operation where
  | apply (path : Path)
  | rollback

def Operation.run (env : Env) (options : Options) : Operation → Command Unit
  | .apply path => applyFile env options path
  | .rollback => Zupd.rollback env options

/-- The contents and the version that an operation is to bring about: the payloads of a package that is
accepted, or the backups. -/
inductive Intends (env : Env) (m : Board) : Operation → (Target → Option (List UInt8)) → Base → Prop
  | apply {path : Path} {package : Package} {contents : List UInt8} {m₁ : Board}
      (hcontents : m.files path = some contents)
      (hverify : verifyInternal env.crypto m.memory.installed path m = (.ok package, m₁)) :
      Intends env m (.apply path)
        (packaged contents package.entries fun target => m.files (.target target)) package.parsed.target
  | rollback : Intends env m .rollback (rolledBack m.memory.state m.files) m.memory.state.previous

/-- The machine after `update_init` on a volume, with a failpoint. The runtime had nothing to record. -/
def started (env : Env) (files : Files Path) (failAfter : Nat) : Board :=
  { boot env none files with memory := { (boot env none files).memory with failAfter := failAfter } }

/-- A start that is to end in the contents and version of `v₀` or in the new ones: recovery has what it
needs, and the record of the runtime, if it fits one of the two, has its version. -/
structure Startable (env : Env) (v₀ : Scene) (new : Target → Option (List UInt8)) (version : Base)
    (runtime : Option Runtime) (files : Files Path) : Prop where
  recoverable : Recoverable env files
  old : Agrees env runtime (fun target => v₀.files (.target target)) v₀.memory.state.installed
  new : Agrees env runtime new version

/-- The volumes passed up to a power loss, the latest first: in the middle of the operation `x`, or in
the middle of an `update_init` on a volume that a power loss left. `C` is asked of those starts. -/
inductive Interrupted (env : Env) (m : Board) (x : Command Unit) (C : Option Runtime → Files Path → Prop) :
    List (Files Path) → Prop
  | operation {trail : List (Files Path)} (htrail : trail <:+ (x m).2.view.trail) : Interrupted env m x C trail
  | restart {runtime : Option Runtime} {files : Files Path} {before trail : List (Files Path)}
      (hleft : Interrupted env m x C (files :: before)) (hstart : C runtime files)
      (hfirst : files :: before <:+ trail) (htrail : trail <:+
        (init env runtime { Machine.fresh files Memory.blank with passed := before }).2.view.trail) :
      Interrupted env m x C trail

theorem Task.History.suffix :
    ∀ {whole : List (Files Path)}, trail <:+ whole → task.History whole → task.History trail := by
  intro whole hsuffix h
  induction whole with
  | nil =>
    rw [suffix_nil.mp hsuffix]
    exact h
  | cons files whole ih =>
    rcases suffix_cons_iff.mp hsuffix with rfl | hsuffix
    · exact h
    · rcases h with ⟨-, hall⟩ | ⟨-, hrest⟩
      · exact Task.history_of_before fun earlier hearlier => hall earlier (hsuffix.subset hearlier)
      · exact ih hsuffix hrest

theorem Course.suffix
    {whole : List (Files Path)} (hsuffix : trail <:+ whole) (h : Course env v₀ new version whole) :
    Course env v₀ new version trail := by
  rcases h with h | ⟨task, hleads, hhistory⟩
  · exact .inl fun files hfiles => h files (hsuffix.subset hfiles)
  · exact .inr ⟨task, hleads, hhistory.suffix hsuffix⟩

section Restart

variable {v₀ : Scene} {new : Target → Option (List UInt8)} {version : Base}

/-- A volume like the first one has the first one's baseline. -/
theorem OldQuiet.baseline (h : OldQuiet env v₀ files) (hsettled : Settled env v₀)
    (hslot : v₀.memory.stateSlot = none) : Baseline env files v₀.memory.state := by
  have hbaseline := hsettled.baseline hslot
  refine ⟨hbaseline.fields, hbaseline.present, fun target => ?_⟩
  rw [h.targets]
  exact hbaseline.described target

theorem Task.Leads.agrees_old (hleads : task.Leads v₀ new version)
    (hstart : Startable env v₀ new version runtime files) :
    Agrees env runtime task.old task.state.installed := by
  rw [hleads.old, hleads.state]
  exact hstart.old

theorem Task.Leads.agrees_new (hleads : task.Leads v₀ new version)
    (hstart : Startable env v₀ new version runtime files) :
    Agrees env runtime task.new task.next.installed := by
  rw [hleads.new, hleads.version]
  exact hstart.new

/-- Starting up passes only volumes of the transaction. -/
theorem calm_init_course (henv : env.Ready) (hsettled : Settled env v₀)
    {before : List (Files Path)} (h : Course env v₀ new version (files :: before))
    (hstart : Startable env v₀ new version runtime files) :
    Calmly (fun v => v.files = files ∧ v.passed = before) (init env runtime)
      (fun _ v => Course env v₀ new version v.trail) (fun _ v => Course env v₀ new version v.trail) := by
  rcases h with h | ⟨task, hleads, hhistory⟩
  · have hquiet := h files mem_cons_self
    refine (calm_init_quiet henv hquiet hsettled.described (hquiet.baseline hsettled) hstart.old).post ?_
    rintro _ v ⟨jslot, j, -, -, rfl⟩
    exact .inl h
  have hnew := hleads.agrees_new hstart
  rcases hhistory with ⟨hbefore, hall⟩ | ⟨hafter, hrest⟩
  · refine (Task.calm_init_before henv hbefore hall hstart.recoverable (hleads.agrees_old hstart) hnew).post ?_
    rintro _ v ⟨u, hu | hu, rfl⟩
    · exact .inr ⟨task, hleads, hu.history⟩
    · exact .inr ⟨task, hleads, hu.history⟩
  · refine (Task.calm_init_after henv hafter hrest hstart.recoverable hnew).post ?_
    rintro _ v ⟨u, hu, rfl⟩
    exact .inr ⟨task, hleads, hu.history⟩

/-- **However often the power fails**, the volumes are those of the transaction. -/
theorem Interrupted.course (henv : env.Ready) (hsettled : Settled env v₀) {x : Command Unit}
    (hx : Course env v₀ new version (x m).2.view.trail)
    (h : Interrupted env m x (Startable env v₀ new version) trail) : Course env v₀ new version trail := by
  induction h with
  | operation htrail => exact hx.suffix htrail
  | restart hleft hstart hfirst htrail ih =>
    refine Course.suffix htrail ?_
    exact ((calm_init_course henv hsettled ih hstart).final ⟨fun _ _ => rfl, fun _ => rfl⟩ ⟨rfl, rfl⟩).2

end Restart

/-! ### All or nothing -/

/-- The committed journal became durable on one of the volumes. -/
def CommitDurable (env : Env) (trail : List (Files Path)) : Prop :=
  ∃ files ∈ trail, ∃ slot j, JournalAt env files slot j ∧ j.phase = .committed

/-- The machine is healthy, and the volume has no pending journal and a record of its state. -/
structure Recovered (env : Env) (m : Board) : Prop where
  healthy : m.memory.healthy = true
  journal : JournalAt env m.files m.memory.journalSlot m.memory.journal
  kind : m.memory.journal.kind = .none
  recorded : StateAt env m.files m.memory.stateSlot m.memory.state

/-- A blank journal is not committed. -/
theorem JournalAt.phase_ne (h : JournalAt env files slot j)
    (hkind : j.kind = .none) : j.phase ≠ .committed := by
  have hconsistent := h.ok.consistent
  rw [Journal.consistent, hkind] at hconsistent
  rw [of_decide_eq_true hconsistent]
  simp [Journal.blank]

theorem Quiet.not_committed {s : State}
    {contents : Target → Option (List UInt8)} (h : Quiet env slot s contents files)
    (hj : JournalAt env files jslot j) : j.phase ≠ .committed := by
  obtain ⟨slot', j', hj', hkind⟩ := h.journal
  rw [(hj.unique hj').2]
  exact hj'.phase_ne hkind

theorem Task.Before.not_committed (h : task.Before files)
    (hj : JournalAt env files jslot j) : j.phase ≠ .committed := by
  rcases h with hquiet | hpending
  · exact hquiet.not_committed hj
  · obtain ⟨slot', j', hj', -, hphase⟩ := hpending.journal
    rw [(hj.unique hj').2]
    exact hphase

/-- What the operation does, if the power does not fail. -/
theorem course_run {operation : Operation} (hcalm : m.Calm)
    (hsettled : Settled env m.view) (hpassed : m.passed = []) (hresult : m.memory.result = ActionResult.blank)
    (hintends : Intends env m operation new version)
    (hpresent : operation = .rollback → ∀ target, (m.memory.state.rollback target).present = true →
    (m.memory.state.current target).present = true) :
    Course env m.view new version (operation.run env options m).2.view.trail := by
  cases hintends with
  | @apply path package contents m₁ hcontents hverify =>
    have hhealthy : m.memory.healthy = true := hsettled.healthy
    rw [Memory.installed, if_pos hhealthy] at hverify
    exact (applyFile_course hcalm hsettled hpassed hresult hverify hcontents).final rfl
  | rollback =>
    exact ((calm_rollback hsettled (hpresent rfl)).final hcalm ⟨hsettled.idle hpassed, rfl⟩).2

theorem settled_started (henv : env.Ready)
    (hquiet : ∃ slot j, JournalAt env files slot j ∧ j.kind = .none)
    (hhealthy : (boot env none files).memory.healthy = true) :
    (started env files failAfter).Calm ∧ Settled env (started env files failAfter).view
      ∧ (started env files failAfter).files = files ∧ (started env files failAfter).passed = []
      ∧ (started env files failAfter).memory.result = ActionResult.blank := by
  obtain ⟨hcalm, h, hfiles, hpassed, hresult⟩ := settled_boot henv hquiet hhealthy
  exact ⟨{ hcalm with }, { h with },
    hfiles, hpassed, hresult⟩

/-- A start that ends healthy, with nothing pending. -/
theorem boot_healthy
    (h : Calmly (fun v => v.files = files ∧ v.passed = []) (init env runtime) (fun _ => Healthy Q) (fun _ => Healthy Q))
    (hQ : ∀ u, Q u → JournalAt env u.files u.memory.journalSlot u.memory.journal
    ∧ u.memory.journal.kind = .none ∧ StateAt env u.files u.memory.stateSlot u.memory.state) :
    Recovered env (boot env runtime files) ∧ ∃ u, Q u ∧ (boot env runtime files).files = u.files
      ∧ (boot env runtime files).memory.state = u.memory.state := by
  obtain ⟨-, u, hu, hview⟩ := boot_of_calm h
  obtain ⟨hjournal, hkind, hstate⟩ := hQ u hu
  have hfiles : (boot env runtime files).files = u.files := congrArg View.files hview
  have hmemory : (boot env runtime files).memory = { u.memory with healthy := true } := congrArg View.memory hview
  refine ⟨⟨by rw [hmemory], ?_, ?_, ?_⟩, u, hu, hfiles, by rw [hmemory]⟩
  · rw [hfiles, hmemory]
    exact hjournal
  · rw [hmemory]
    exact hkind
  · rw [hfiles, hmemory]
    exact hstate

theorem Task.AllNew.installed {v : Scene} (h : task.AllNew v) :
    v.memory.state.installed = task.next.installed := by
  obtain ⟨sequence, hstate⟩ := h.state
  rw [hstate]

/-- **Updates and rollbacks are all or nothing.** From every healthy volume without a journal, whatever
is left by a power loss in the middle of an operation and of any number of later starts, a start that
is not interrupted ends healthy, with nothing pending, and with all of the old or all of the new
contents and version; and with the new ones if the committed journal was ever durable. Every one of
these starts has to be startable, and what is rolled back has to be there. -/
theorem interrupted_operation_recovers (henv : env.Ready) {files : Files Path}
    (hquiet : ∃ slot j, JournalAt env files slot j ∧ j.kind = .none)
    (hhealthy : (boot env none files).memory.healthy = true) (failAfter : Nat) (options : Options)
    {operation : Operation} {new : Target → Option (List UInt8)} {version : Base}
    (hintends : Intends env (started env files failAfter) operation new version)
    (hpresent : operation = .rollback → ∀ target,
      ((boot env none files).memory.state.rollback target).present = true →
      ((boot env none files).memory.state.current target).present = true)
    {left : Files Path} {before : List (Files Path)} {runtime : Option Runtime}
    (hleft : Interrupted env (started env files failAfter) (operation.run env options)
      (Startable env (started env files failAfter).view new version) (left :: before))
    (hstart : Startable env (started env files failAfter).view new version runtime left) :
    Recovered env (boot env runtime left)
      ∧ (((∀ target, (boot env runtime left).files (.target target) = files (.target target))
            ∧ (boot env runtime left).memory.state = (boot env none files).memory.state
            ∧ ¬ CommitDurable env (left :: before))
          ∨ ((∀ target, (boot env runtime left).files (.target target) = new target)
            ∧ (boot env runtime left).memory.state.installed = version)) := by
  obtain ⟨hcalm, hstarted, hsame, hpassed, hresult⟩ := settled_started henv hquiet hhealthy
  replace hsame : (started env files failAfter).view.files = files := hsame
  have hcourse := hleft.course henv hstarted
    (course_run hcalm hstarted hpassed hresult hintends hpresent)
  rcases hcourse with hall | ⟨task, hleads, hhistory⟩
  · -- The operation had not begun.
    have hnow := hall left mem_cons_self
    obtain ⟨hrecovered, u, ⟨jslot, j, hj, hkind, rfl⟩, hboot, hstate⟩ := boot_healthy
      (Q := fun u => ∃ jslot j, JournalAt env left jslot j ∧ j.kind = .none ∧ u = ⟨left, [],
        { startMemory with
          state := (started env files failAfter).memory.state, journal := j, journalSlot := jslot
          stateSlot := (started env files failAfter).memory.stateSlot, healthy := true }⟩)
      ((calm_init_quiet henv hnow hstarted.described (hnow.baseline hstarted) hstart.old).post
        fun _ v ⟨jslot, j, hj, hkind, hv⟩ => ⟨v, ⟨jslot, j, hj, hkind, hv⟩, by rw [hv]⟩)
      (by rintro u ⟨jslot, j, hj, hkind, rfl⟩; exact ⟨hj, hkind, hnow.state⟩)
    refine ⟨hrecovered, .inl ⟨fun target => ?_, hstate, ?_⟩⟩
    · have hleftFiles : (boot env runtime left).files = left := hboot
      rw [hleftFiles, hnow.targets, hsame]
    · rintro ⟨volume, hvolume, slot, j', hj', hphase⟩
      exact (hall volume hvolume).not_committed hj' hphase
  · have hnew := hleads.agrees_new hstart
    have hold : task.old = fun target => files (.target target) := by rw [hleads.old, hsame]
    rcases hhistory with ⟨hbefore, hearlier⟩ | ⟨hafter, hrest⟩
    · obtain ⟨hrecovered, u, hu, hboot, hstate⟩ := boot_healthy
        (Task.calm_init_before henv hbefore (fun _ h => absurd h not_mem_nil) hstart.recoverable
          (hleads.agrees_old hstart) hnew) (by
          rintro u (hu | hu)
          · exact ⟨hu.journal, hu.kind, hu.recorded⟩
          · exact ⟨hu.journal, hu.kind, hu.recorded⟩)
      refine ⟨hrecovered, ?_⟩
      rcases hu with hu | hu
      · refine .inl ⟨fun target => ?_, hstate.trans (hu.state.trans hleads.state), ?_⟩
        · rw [hboot, hu.targets, hold]
        · rintro ⟨volume, hvolume, slot, j, hj, hphase⟩
          rcases mem_cons.mp hvolume with rfl | hvolume
          · exact hbefore.not_committed hj hphase
          · exact (hearlier volume hvolume).not_committed hj hphase
      · refine .inr ⟨fun target => ?_, ?_⟩
        · rw [hboot, hu.targets, hleads.new]
        · rw [hstate, hu.installed, hleads.version]
    · obtain ⟨hrecovered, u, hu, hboot, hstate⟩ := boot_healthy
        (Task.calm_init_after henv hafter trivial hstart.recoverable hnew)
        fun u hu => ⟨hu.journal, hu.kind, hu.recorded⟩
      refine ⟨hrecovered, .inr ⟨fun target => ?_, ?_⟩⟩
      · rw [hboot, hu.targets, hleads.new]
      · rw [hstate, hu.installed, hleads.version]

/-! ### The small update -/

theorem sampleEnv_ready : sampleEnv.Ready := ⟨rfl, rfl⟩

theorem sampleFiles_quiet : ∃ slot j, JournalAt sampleEnv sampleFiles slot j ∧ j.kind = .none :=
  ⟨none, Journal.blank 0, ⟨⟨rfl, fun _ slot => by cases slot <;> rfl⟩, fun _ => rfl⟩, rfl⟩

theorem sampleFiles_healthy : (boot sampleEnv none sampleFiles).memory.healthy = true := by decide +kernel

def sampleVersion : Base := ⟨⟨0, 2, 0⟩, 0⟩

theorem sample_intends : ∃ new,
    Intends sampleEnv (started sampleEnv sampleFiles 0) (.apply samplePath) new sampleVersion := by
  obtain ⟨-, -, hfiles, -, -⟩ :=
    settled_started sampleEnv_ready sampleFiles_quiet sampleFiles_healthy
  have hok : ((verifyInternal sampleEnv.crypto (started sampleEnv sampleFiles 0).memory.installed samplePath
      (started sampleEnv sampleFiles 0)).1.toOption.map fun package => package.parsed.target)
      = some sampleVersion := by decide +kernel
  obtain ⟨contents, hfile⟩ : ∃ contents, sampleFiles samplePath = some contents := ⟨_, rfl⟩
  have hcontents : (started sampleEnv sampleFiles 0).files samplePath = some contents := by
    rw [hfiles, hfile]
  generalize started sampleEnv sampleFiles 0 = m at hok hcontents ⊢
  generalize hrun : verifyInternal sampleEnv.crypto m.memory.installed samplePath m = r at hok
  obtain ⟨outcome, m₁⟩ := r
  cases outcome with
  | error e => cases hok
  | ok package =>
    rw [← Option.some.inj hok]
    exact ⟨_, .apply hcontents hrun⟩

/-- The volumes of the update, the latest first. -/
def sampleTrail (options : Options) : List (Files Path) :=
  (Operation.run sampleEnv options (.apply samplePath) (started sampleEnv sampleFiles 0)).2.view.trail

/-- There is a journal in this phase, and recovery has what it needs. -/
def recoversFrom (env : Env) (phase : Phase) (files : Files Path) : Bool :=
  (latest Journal.sequence (recordAt .journal (decodeJournal env.crypto) files)).any fun (_, j) =>
    j.phase == phase && (j.entries.all fun entry => (files (.backup j.slot entry.target)).isSome)
      && decide (j.sequence + journalWrites j ≤ maxSequence)
      && (latest State.sequence (recordAt .state (decodeState env.crypto) files)).all fun (_, s) =>
        decide (s.sequence < maxSequence)

theorem recoverable_of_recoversFrom {phase : Phase} (h : recoversFrom env phase files = true) :
    (∃ slot j, JournalAt env files slot j ∧ j.phase = phase) ∧ Recoverable env files := by
  rw [recoversFrom] at h
  obtain ⟨⟨slot, j⟩, hlatest, hj⟩ := (Option.any_eq_true _ _).mp h
  simp only [Bool.and_eq_true, beq_iff_eq, decide_eq_true_eq, all_eq_true] at hj
  obtain ⟨⟨⟨hphase, hbackups⟩, hroom⟩, hstate⟩ := hj
  have hfound : JournalAt env files (some slot) j := ⟨⟨hlatest, nofun⟩, nofun⟩
  refine ⟨⟨some slot, j, hfound, hphase⟩, fun slot' j' hj' _ _ => ?_, fun slot' j' hj' _ => ?_,
    fun slot' j' hj' _ _ stateSlot s hs => ?_⟩
  · rw [(hj'.unique hfound).2]
    exact hbackups
  · rw [(hj'.unique hfound).2]
    exact hroom
  · have hlast : latest State.sequence (recordAt .state (decodeState env.crypto) files)
        = some (stateSlot, s) := hs.1
    simpa [hlast] using hstate

/-- One of the volumes, counted from the latest one. -/
theorem exists_suffix {p : Files Path → Bool} {k : Nat} (h : (trail.drop k).head?.any p = true) :
    ∃ left before, left :: before <:+ trail ∧ p left = true := by
  obtain ⟨left, hhead, hleft⟩ := (Option.any_eq_true _ _).mp h
  obtain ⟨before, heq⟩ := head?_eq_some_iff.mp hhead
  exact ⟨left, before, heq ▸ drop_suffix k trail, hleft⟩

/-- The target was replaced, and no progress was recorded. -/
theorem sampleTrail_prepared :
    ((sampleTrail sampleOptions).drop 5).head?.any (recoversFrom sampleEnv .prepared) = true := by
  decide +kernel

/-- The committed journal was written. -/
theorem sampleTrail_committed :
    ((sampleTrail sampleOptions).drop 3).head?.any (recoversFrom sampleEnv .committed) = true := by
  decide +kernel

/-- The update goes through. A power loss while it is pending is recovered from, and one after the
commit with the new version. -/
theorem sampleTrail_recovers :
    (∃ left before, left :: before <:+ sampleTrail sampleOptions
      ∧ (∃ slot j, JournalAt sampleEnv left slot j ∧ j.phase = .prepared)
      ∧ Recovered sampleEnv (boot sampleEnv none left))
    ∧ ∃ left before, left :: before <:+ sampleTrail sampleOptions
      ∧ (∃ slot j, JournalAt sampleEnv left slot j ∧ j.phase = .committed)
      ∧ Recovered sampleEnv (boot sampleEnv none left)
      ∧ (boot sampleEnv none left).memory.state.installed = sampleVersion := by
  obtain ⟨new, hintends⟩ := sample_intends
  refine ⟨?_, ?_⟩
  · obtain ⟨left, before, hsuffix, hleft⟩ := exists_suffix sampleTrail_prepared
    obtain ⟨hphase, hrecoverable⟩ := recoverable_of_recoversFrom hleft
    exact ⟨left, before, hsuffix, hphase, (interrupted_operation_recovers sampleEnv_ready sampleFiles_quiet
      sampleFiles_healthy 0 sampleOptions hintends nofun (.operation hsuffix)
      ⟨hrecoverable, agrees_none, agrees_none⟩).1⟩
  · obtain ⟨left, before, hsuffix, hleft⟩ := exists_suffix sampleTrail_committed
    obtain ⟨hphase, hrecoverable⟩ := recoverable_of_recoversFrom hleft
    obtain ⟨hrecovered, hold | hnew⟩ := interrupted_operation_recovers sampleEnv_ready sampleFiles_quiet
      sampleFiles_healthy 0 sampleOptions hintends nofun (.operation hsuffix)
      ⟨hrecoverable, agrees_none, agrees_none⟩
    -- all old is out of question once the committed record was there
    · exact absurd ⟨left, mem_cons_self, hphase⟩ hold.2.2
    · exact ⟨left, before, hsuffix, hphase, hrecovered, hnew.2⟩

/-- Cancelled when the first target is about to be replaced. -/
def sampleStop : Options := ⟨false, fun polls => polls == 2⟩

/-- The last volume but one has the journal without the backups. -/
theorem sampleTrail_unhealthy : ((sampleTrail sampleStop).drop 1).head?.any
    (fun files => !(boot sampleEnv none files).memory.healthy) = true := by
  decide +kernel

/-- Cancelled at the first target, the update is undone; but after a power loss between the backups and
the journal, the start is not healthy. -/
theorem sampleTrail_lost : sampleEnv.Ready
    ∧ (∃ slot j, JournalAt sampleEnv sampleFiles slot j ∧ j.kind = .none)
    ∧ (boot sampleEnv none sampleFiles).memory.healthy = true
    ∧ (∃ new version, Intends sampleEnv (started sampleEnv sampleFiles 0) (.apply samplePath) new version)
    ∧ ∃ left before, Interrupted sampleEnv (started sampleEnv sampleFiles 0)
        (Operation.run sampleEnv sampleStop (.apply samplePath)) (fun _ _ => True) (left :: before)
      ∧ (boot sampleEnv none left).memory.healthy = false := by
  obtain ⟨new, hintends⟩ := sample_intends
  obtain ⟨left, before, hsuffix, hleft⟩ := exists_suffix sampleTrail_unhealthy
  exact ⟨sampleEnv_ready, sampleFiles_quiet, sampleFiles_healthy, ⟨new, _, hintends⟩, left, before,
    .operation hsuffix, by simpa using hleft⟩

end ZephyrOS.Zupd
