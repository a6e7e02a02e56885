import Mathlib.Data.List.Range
import ZephyrOS.Core.Errors

/-!
# The choice of the next process

`scheduler_select_next` of `process.c`. The scan starts behind the slot it chose last and goes once
around the slots other than the one of Idle, so what bounds the wait of a ready process is how many
steps of the scan its slot is away from the cursor.
-/

namespace ZephyrOS.Scheduler

def maxProcesses : Nat := 64

inductive ProcessState where
  | unused | ready | running | blocked | zombie
  deriving DecidableEq, Repr

/-- What the scheduler reads of a `process_t`. -/
structure Process where
  pid : Nat
  state : ProcessState

/-- The variables of `process.c` the choice reads and writes; a process is known by its address. -/
structure State where
  processes : Nat → Option Nat
  process : Nat → Process
  currentProcess : Option Nat
  lastScheduledIdx : Int
  idleFallbacks : Nat
  lastError : Option Err

namespace State

variable (s : State) {idx p step : Nat}

def startIdx : Nat :=
  if s.lastScheduledIdx < 1 ∨ s.lastScheduledIdx ≥ maxProcesses then maxProcesses - 1
  else s.lastScheduledIdx.toNat

/-- The slot the scan looks at in a step. -/
def scanIdx (start step : Nat) : Nat := 1 + (start - 1 + step) % (maxProcesses - 1)

def isReady (idx : Nat) : Bool :=
  (s.processes idx).any fun p => (s.process p).state == .ready

def findNextReady : Option Nat × State :=
  let hit := (List.range' 1 (maxProcesses - 1)).find? fun step =>
    s.isReady (scanIdx s.startIdx step)
  match hit with
  | some step =>
    let idx := scanIdx s.startIdx step
    (s.processes idx, { s with lastScheduledIdx := idx })
  | none => (none, s)

def selectNext : Option Nat × State :=
  match s.findNextReady with
  | (some next, s) => (some next, s)
  | (none, s) =>
    let current := s.currentProcess
    let idle := s.processes 0
    if current.any fun p => (s.process p).pid != 0 && (s.process p).state == .running then
      (current, s)
    else if idle.any fun p => (s.process p).state == .ready || (s.process p).state == .running then
      (idle, { s with idleFallbacks := u32 (s.idleFallbacks + 1) })
    else (none, { s with lastError := some .state })

/-- The choice changes no process and no slot. -/
theorem selectNext_table : s.selectNext.2.processes = s.processes
    ∧ s.selectNext.2.process = s.process := by
  have hfind : s.findNextReady.2.processes = s.processes ∧ s.findNextReady.2.process = s.process := by
    unfold findNextReady
    dsimp only
    split <;> exact ⟨rfl, rfl⟩
  unfold selectNext
  split
  · simp_all
  · dsimp only
    split_ifs <;> simp_all

/-- A process other than Idle that is ready, with its slot. -/
structure Ready (idx p : Nat) : Prop where
  pos : 1 ≤ idx
  lt : idx < maxProcesses
  slot : s.processes idx = some p
  ready : (s.process p).state = .ready

variable {s}

theorem Ready.isReady (h : s.Ready idx p) : s.isReady idx = true := by
  simp [State.isReady, h.slot, h.ready]

theorem startIdx_bounds : 1 ≤ s.startIdx ∧ s.startIdx < maxProcesses := by
  unfold startIdx maxProcesses
  split <;> omega

theorem scanIdx_bounds (start step : Nat) :
    1 ≤ scanIdx start step ∧ scanIdx start step < maxProcesses := by
  unfold scanIdx maxProcesses
  omega

theorem startIdx_of_cursor {start : Nat} (h : s.lastScheduledIdx = scanIdx start step) :
    s.startIdx = scanIdx start step := by
  have hb := scanIdx_bounds start step
  unfold startIdx
  rw [h, if_neg (by omega), Int.toNat_natCast]

/-- The scan from the slot it stopped at goes on where it was. -/
theorem scanIdx_scanIdx (start a b : Nat) :
    scanIdx (scanIdx start a) b = scanIdx start (a + b) := by
  unfold scanIdx maxProcesses
  omega

/-- Every slot other than the one of Idle is met within one round. -/
theorem exists_scanIdx (s : State) (hpos : 1 ≤ idx) (hlt : idx < maxProcesses) :
    ∃ step, 1 ≤ step ∧ step < maxProcesses ∧ scanIdx s.startIdx step = idx := by
  obtain ⟨hs, hs'⟩ := s.startIdx_bounds
  unfold scanIdx maxProcesses at *
  by_cases h : s.startIdx < idx
  · exact ⟨idx - s.startIdx, by omega, by omega, by omega⟩
  · exact ⟨idx + 63 - s.startIdx, by omega, by omega, by omega⟩

/-- With a ready process some steps away, the scan stops there or before, at a ready process. -/
theorem selectNext_of_ready (h1 : 1 ≤ step) (hlt : step < maxProcesses)
    (h : s.Ready (scanIdx s.startIdx step) p) :
    ∃ hit q, 1 ≤ hit ∧ hit ≤ step ∧ s.Ready (scanIdx s.startIdx hit) q ∧
      s.selectNext.1 = some q ∧ s.selectNext.2.lastScheduledIdx = scanIdx s.startIdx hit := by
  cases hf : (List.range' 1 (maxProcesses - 1)).find? fun i => s.isReady (scanIdx s.startIdx i) with
  | none =>
    have hmem : step ∈ List.range' 1 (maxProcesses - 1) := by
      simp only [List.mem_range'_1, maxProcesses] at hlt ⊢
      omega
    exact absurd h.isReady (List.find?_eq_none.1 hf step hmem)
  | some hit =>
    obtain ⟨hr, i, hi, hget, hbefore⟩ := List.find?_eq_some_iff_getElem.1 hf
    simp only [List.getElem_range'] at hget hbefore
    obtain ⟨q, hq, hst⟩ := (Option.any_eq_true ..).1 hr
    -- a step before the one it stopped at had no ready process
    have hle : hit ≤ step := by
      by_contra hgt
      have := hbefore (step - 1) (by omega)
      rw [show 1 + 1 * (step - 1) = step by omega, h.isReady] at this
      cases this
    obtain ⟨hb, hb'⟩ := scanIdx_bounds s.startIdx hit
    refine ⟨hit, q, by omega, hle, ⟨hb, hb', hq, by simpa using hst⟩, ?_, ?_⟩ <;>
      simp [selectNext, findNextReady, hf, hq]

end State

/-- The states in front of the calls of `scheduler_select_next`. Between two calls processes are
created, destroyed, woken and blocked; nothing but the choice itself moves the cursor. -/
structure History where
  before : Nat → State
  cursor : ∀ i, (before (i + 1)).lastScheduledIdx = (before i).selectNext.2.lastScheduledIdx

namespace History

open State

variable (h : History) {idx p : Nat}

/-- A ready process some steps of the scan away is chosen within as many calls: each call that
chooses another one stops before it, and brings the cursor nearer. -/
theorem chosen_within (step : Nat) : ∀ i, 1 ≤ step → step < maxProcesses →
    scanIdx (h.before i).startIdx step = idx → (∀ j < step, (h.before (i + j)).Ready idx p) →
    ∃ j < step, (h.before (i + j)).selectNext.1 = some p := by
  induction step using Nat.strong_induction_on with
  | _ step ih =>
    intro i h1 hlt hidx hready
    have hnow : (h.before i).Ready idx p := hready 0 h1
    subst hidx
    obtain ⟨hit, q, hpos, hle, hq, hchosen, hcur⟩ := selectNext_of_ready h1 hlt hnow
    rcases Nat.lt_or_ge hit step with hit_lt | hge
    · have hstart := startIdx_of_cursor ((h.cursor i).trans hcur)
      obtain ⟨j, hj, hres⟩ := ih (step - hit) (by omega) (i + 1) (by omega) (by omega)
        (by rw [hstart, scanIdx_scanIdx, Nat.add_sub_cancel' hle])
        fun j hj => by
          have := hready (1 + j) (by omega)
          rwa [← Nat.add_assoc] at this
      exact ⟨1 + j, by omega, by rwa [← Nat.add_assoc]⟩
    · -- the scan came as far as the process itself
      obtain rfl : hit = step := by omega
      have : some q = some p := hq.slot.symm.trans hnow.slot
      exact ⟨0, h1, hchosen.trans this⟩

/-- A process other than Idle that is ready in `maxProcesses - 1` calls in a row is chosen by one of
them, and a call chooses a ready process other than Idle whenever there is one: Idle, or the process
that runs, is chosen only when there is none. -/
theorem select_next_fair :
    (∀ i idx p, (∀ j < maxProcesses - 1, (h.before (i + j)).Ready idx p) →
      ∃ j < maxProcesses - 1, (h.before (i + j)).selectNext.1 = some p) ∧
    ∀ i idx p, (h.before i).Ready idx p →
      ∃ idx' q, (h.before i).Ready idx' q ∧ (h.before i).selectNext.1 = some q := by
  constructor
  · intro i idx p hready
    have hnow : (h.before i).Ready idx p := hready 0 (by decide)
    obtain ⟨step, h1, hlt, hidx⟩ := (h.before i).exists_scanIdx hnow.pos hnow.lt
    have hle : step ≤ maxProcesses - 1 := Nat.le_pred_of_lt hlt
    obtain ⟨j, hj, hres⟩ := h.chosen_within step i h1 hlt hidx fun j hj => hready j (by omega)
    exact ⟨j, by omega, hres⟩
  · intro i idx p hready
    obtain ⟨step, h1, hlt, rfl⟩ := (h.before i).exists_scanIdx hready.pos hready.lt
    obtain ⟨hit, q, -, -, hq, hchosen, -⟩ := selectNext_of_ready h1 hlt hready
    exact ⟨_, q, hq, hchosen⟩

/-- One call after the other, and nothing happens in between. -/
def undisturbed (s : State) : History where
  before i := (fun s => s.selectNext.2)^[i] s
  cursor i := by rw [Function.iterate_succ_apply']

theorem undisturbed_table (s : State) (i : Nat) :
    ((undisturbed s).before i).processes = s.processes
      ∧ ((undisturbed s).before i).process = s.process := by
  induction i with
  | zero => exact ⟨rfl, rfl⟩
  | succ i ih =>
    have hnext : (undisturbed s).before (i + 1) = ((undisturbed s).before i).selectNext.2 :=
      Function.iterate_succ_apply' ..
    rwa [hnext, (selectNext_table _).1, (selectNext_table _).2]

/-- Idle, and ready processes in slots 1 to 9; the one in slot 5 was chosen last. -/
def crowd : State where
  processes idx := if idx < 10 then some idx else none
  process p := ⟨p, .ready⟩
  currentProcess := some 5
  lastScheduledIdx := 5
  idleFallbacks := 0
  lastError := none

/-- The last one before the cursor gets its turn too. -/
theorem crowd_chosen : ∃ j < 63, ((undisturbed crowd).before (0 + j)).selectNext.1 = some 4 :=
  (undisturbed crowd).select_next_fair.1 0 4 4 fun j _ => by
    obtain ⟨hslots, hprocess⟩ := undisturbed_table crowd (0 + j)
    exact ⟨by decide, by decide, by rw [hslots]; rfl, by rw [hprocess]; rfl⟩

end History

end ZephyrOS.Scheduler
