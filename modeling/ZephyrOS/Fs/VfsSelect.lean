import Mathlib.Tactic.SplitIfs
import ZephyrOS.Core.Errors

/-!
# `select` over `poll`

`vfs_select` of `vfs.c` asks `vfs_poll` about the descriptors of its three sets and translates the
answer back. The count `vfs_poll` left is counted on, and a hang-up goes into every set the caller
gave, so the translation is right only when nothing is ready.
-/

namespace ZephyrOS.VfsPoll

def maxFds : Nat := 32
def pollMaxFds : Nat := 32
def waitMaxTimeoutTicks : Nat := 0x7FFFFFFF
def timeoutInfinite : Nat := 0xFFFFFFFF

def pollIn : Nat := 0x01
def pollOut : Nat := 0x02
def pollErr : Nat := 0x04
def pollHup : Nat := 0x08
def pollNval : Nat := 0x10

inductive WaitReason where
  | none | event | timeout | cancelled | deviceUnavailable | signal
  deriving DecidableEq, Repr

structure PollFd where
  fd : Int
  events : Nat
  revents : Nat

/-- What `vfs_poll_begin_operation` gives for a descriptor: an error, or a file with the operation
that answers which of some events it observes. -/
abbrev Table := Nat → Except Err (Nat → Except Err Nat)

def pollOne (t : Table) (f : PollFd) : Except Err Nat :=
  if f.fd < 0 ∨ f.fd ≥ maxFds then .ok pollNval
  else match t f.fd.toNat with
    | .error .invalid => .ok pollNval
    | .error .state => .ok 0
    | .error e => .error e
    | .ok poll => do
      let observed ← poll f.events
      return observed &&& (f.events ||| pollErr ||| pollHup ||| pollNval)

/-- `vfs_poll_scan`: the descriptors with their answers, and how many have one. -/
def pollScan (t : Table) : List PollFd → Except Err (List PollFd × Nat)
  | [] => .ok ([], 0)
  | f :: fds => do
    let revents ← pollOne t f
    let (fds, ready) ← pollScan t fds
    return ({ f with revents } :: fds, if revents ≠ 0 then ready + 1 else ready)

/-- A round of `wait_event_timeout`: whether the queue is valid, the table it scans, whether the
channel is available, and what `wait_current_task` comes back with. -/
structure Round where
  valid : Bool
  table : Table
  available : Bool
  wait : Except Err WaitReason

/-- `wait_event_timeout` on `vfs_poll_wait_condition`; without an answer the call still waits. -/
def waitEvent (fds : List PollFd) :
    List Round → Option (Except Err (List PollFd × Nat × WaitReason))
  | [] => none
  | r :: rounds =>
    if !r.valid then some (.error .state)
    else match pollScan r.table fds with
      | .error e => some (.error e)
      | .ok (fds, ready) =>
        if ready ≠ 0 then some (.ok (fds, ready, .event))
        else if !r.available then some (.ok (fds, ready, .deviceUnavailable))
        else match r.wait with
          | .error e => some (.error e)
          | .ok .event => waitEvent fds rounds
          | .ok reason => some (.ok (fds, ready, reason))

/-- What a call finds: the lifecycle, the service, and the rounds of its wait. -/
structure Env where
  lifecycleBlocked : Bool
  initialized : Bool
  rounds : List Round

def poll (env : Env) (fds : List PollFd) (timeout : Nat) :
    Option (Except Err (List PollFd × Nat)) :=
  if env.lifecycleBlocked then some (.error .unavailable)
  else if fds.length > pollMaxFds then some (.error .overflow)
  else if timeout ≠ timeoutInfinite ∧ timeout > waitMaxTimeoutTicks then some (.error .invalid)
  -- a bit outside the supported events, which are the five lowest
  else if fds.any fun f => f.events ≥ 0x20 then some (.error .invalid)
  else if !env.initialized then some (.error .state)
  else (waitEvent fds env.rounds).map fun
    | .error e => .error e
    | .ok (_, _, .cancelled) | .ok (_, _, .signal) => .error .cancelled
    | .ok (_, _, .deviceUnavailable) => .error .unavailable
    | .ok (_, _, .none) => .error .state
    | .ok (fds, ready, _) => .ok (fds, ready)

/-- The three sets of `vfs_select`, as the bits of an `fd_set_t`; a pointer may be null. -/
structure Sets where
  readfds : Option Nat
  writefds : Option Nat
  exceptfds : Option Nat

def fdIsSet (fd : Nat) (set : Option Nat) : Bool :=
  set.any fun bits => decide (fd < pollMaxFds) && bits.testBit fd

def fdSet (fd : Int) (bits : Nat) : Nat :=
  if 0 ≤ fd ∧ fd < pollMaxFds then bits ||| 1 <<< fd.toNat else bits

def Sets.events (sets : Sets) (fd : Nat) : Nat :=
  (if fdIsSet fd sets.readfds then pollIn else 0) |||
    (if fdIsSet fd sets.writefds then pollOut else 0) |||
    (if fdIsSet fd sets.exceptfds then pollErr ||| pollHup else 0)

def Sets.pollFds (sets : Sets) (nfds : Nat) : List PollFd :=
  (List.range nfds).filterMap fun fd =>
    if sets.events fd = 0 then none else some ⟨fd, sets.events fd, 0⟩

/-- A set of the caller, zeroed, with the descriptors that have one of some events. -/
def fill (events : Nat) (fds : List PollFd) (set : Option Nat) : Option Nat :=
  set.map fun _ => fds.foldl (fun bits f =>
    if f.revents &&& events ≠ 0 then fdSet f.fd bits else bits) 0

def Sets.fill (sets : Sets) (fds : List PollFd) : Sets where
  readfds := VfsPoll.fill (pollIn ||| pollHup) fds sets.readfds
  writefds := VfsPoll.fill pollOut fds sets.writefds
  exceptfds := VfsPoll.fill (pollErr ||| pollHup) fds sets.exceptfds

/-- How many descriptors have an answer. -/
def readyCount (fds : List PollFd) : Nat := fds.countP (·.revents ≠ 0)

/-- `vfs_select`: its result with `*out_ready` when it is `OK`, and what it leaves of the sets. -/
def select (env : Env) (nfds : Nat) (sets : Sets) (timeout : Nat) : Option (Except Err Nat × Sets) :=
  if nfds > pollMaxFds then some (.error .overflow, sets)
  else (poll env (sets.pollFds nfds) timeout).map fun
    | .error e => (.error e, sets)
    | .ok (fds, ready) =>
      if fds.any fun f => f.revents &&& pollNval ≠ 0 then (.error .invalid, sets.fill [])
      else (.ok (ready + readyCount fds), sets.fill fds)

/-- A descriptor is reported with one of some events. -/
def Reported (fds : List PollFd) (events fd : Nat) : Prop :=
  ∃ f ∈ fds, f.fd = fd ∧ f.revents &&& events ≠ 0

/-- The output set has the descriptors of the input set that were reported. -/
def SetRefines (fds : List PollFd) (events : Nat) (input output : Option Nat) : Prop :=
  ∀ bits ∈ input, ∃ bits' ∈ output, ∀ fd, bits'.testBit fd ↔ bits.testBit fd ∧ Reported fds events fd

/-- `select` as a view of what `poll` reported. -/
structure Refines (sets : Sets) (fds : List PollFd) (out : Sets) (ready : Nat) : Prop where
  readfds : SetRefines fds (pollIn ||| pollHup) sets.readfds out.readfds
  writefds : SetRefines fds pollOut sets.writefds out.writefds
  exceptfds : SetRefines fds (pollErr ||| pollHup) sets.exceptfds out.exceptfds
  ready : ready = readyCount fds

variable {env : Env} {fds fds' : List PollFd} {ready events : Nat} {set : Option Nat}

theorem pollScan_ready {t : Table} :
    ∀ {fds fds' : List PollFd} {ready : Nat}, pollScan t fds = .ok (fds', ready) →
      ready = readyCount fds' := by
  intro fds
  induction fds with
  | nil =>
    intro fds' ready h
    cases h
    rfl
  | cons f fds ih =>
    intro fds' ready h
    cases hf : pollOne t f with
    | error e => simp [pollScan, hf, bind, Except.bind] at h
    | ok revents =>
      cases hs : pollScan t fds with
      | error e => simp [pollScan, hf, hs, bind, Except.bind] at h
      | ok out =>
        simp only [pollScan, hf, hs, bind, Except.bind, pure, Except.pure, Except.ok.injEq,
          Prod.mk.injEq] at h
        obtain ⟨rfl, rfl⟩ := h
        simp only [readyCount, List.countP_cons, ih hs]
        split <;> simp_all

/-- Whatever ends the wait, the count is the one of the last scan. -/
theorem waitEvent_ready {reason : WaitReason} : ∀ {rounds : List Round} {fds : List PollFd},
    waitEvent fds rounds = some (.ok (fds', ready, reason)) → ready = readyCount fds' := by
  intro rounds
  induction rounds with
  | nil => intro fds h; cases h
  | cons r rounds ih =>
    intro fds h
    unfold waitEvent at h
    split at h
    · cases h
    split at h
    · cases h
    · rename_i hs
      have hready := pollScan_ready hs
      split_ifs at h
      · cases h; exact hready
      · cases h; exact hready
      · split at h
        · cases h
        · exact ih h
        · cases h; exact hready

theorem poll_ready {timeout : Nat} (h : poll env fds timeout = some (.ok (fds', ready))) :
    ready = readyCount fds' := by
  unfold poll at h
  iterate 5
    split at h
    · cases h
  obtain ⟨out, hw, hout⟩ := Option.map_eq_some_iff.1 h
  split at hout <;> cases hout
  exact waitEvent_ready hw

theorem fill_of_quiet (hq : ∀ f ∈ fds, f.revents = 0) :
    fill events fds set = set.map fun _ => 0 := by
  unfold fill
  congr 1
  funext
  induction fds with
  | nil => rfl
  | cons f fds ih =>
    rw [List.foldl_cons, hq f List.mem_cons_self, Nat.zero_and, if_neg (not_not_intro rfl)]
    exact ih fun g hg => hq g (List.mem_cons_of_mem _ hg)

theorem setRefines_of_quiet (hq : ∀ f ∈ fds, f.revents = 0) :
    SetRefines fds events set (fill events fds set) := by
  intro bits hbits
  rw [fill_of_quiet hq, hbits]
  refine ⟨0, rfl, fun fd => iff_of_false (by simp) ?_⟩
  rintro ⟨-, f, hf, -, hrev⟩
  rw [hq f hf, Nat.zero_and] at hrev
  exact hrev rfl

/-- A `select` that succeeds is the view of its `poll` exactly when nothing is ready. -/
theorem select_refines_iff {nfds timeout : Nat} {sets out : Sets}
    (h : select env nfds sets timeout = some (.ok ready, out)) :
    ∃ fds n, poll env (sets.pollFds nfds) timeout = some (.ok (fds, n)) ∧
      (Refines sets fds out ready ↔ ∀ f ∈ fds, f.revents = 0) := by
  unfold select at h
  split at h
  · cases h
  obtain ⟨result, hp, hout⟩ := Option.map_eq_some_iff.1 h
  split at hout
  · cases hout
  · rename_i fds n
    split at hout
    · cases hout
    cases hout
    refine ⟨fds, n, hp, ?_⟩
    rw [poll_ready hp]
    constructor
    · -- what is counted twice is right only if it is zero
      intro hr f hf
      have hzero : readyCount fds = 0 := by have := hr.ready; omega
      simpa using List.countP_eq_zero.1 hzero f hf
    · intro hq
      have hzero : readyCount fds = 0 := List.countP_eq_zero.2 fun f hf => by simp [hq f hf]
      refine ⟨setRefines_of_quiet hq, setRefines_of_quiet hq, setRefines_of_quiet hq, ?_⟩
      rw [hzero]

/-- A table whose only file, descriptor 0, answers with some events. -/
def oneFile (revents : Nat) : Env where
  lifecycleBlocked := false
  initialized := true
  rounds := [⟨true, fun fd => if fd = 0 then .ok fun _ => .ok revents else .error .invalid, true,
    .ok .timeout⟩]

/-- A write end nobody can write to yet: the wait times out. -/
theorem quiet_select_refines : ∃ fds n,
    poll (oneFile 0) (Sets.pollFds ⟨some 0, some 1, none⟩ 1) 0 = some (.ok (fds, n)) ∧
      (Refines ⟨some 0, some 1, none⟩ fds ⟨some 0, some 0, none⟩ 0 ↔ ∀ f ∈ fds, f.revents = 0) :=
  have h : select (oneFile 0) 1 ⟨some 0, some 1, none⟩ 0 = some (.ok 0, ⟨some 0, some 0, none⟩) := rfl
  select_refines_iff h

/-- A write end that was hung up: two descriptors are said to be ready, and the set of the readers,
which was empty, has it. -/
theorem hung_up_select_miscounts :
    select (oneFile pollHup) 1 ⟨some 0, some 1, none⟩ 0 = some (.ok 2, ⟨some 1, some 0, none⟩) ∧
      poll (oneFile pollHup) (Sets.pollFds ⟨some 0, some 1, none⟩ 1) 0 =
        some (.ok ([⟨0, pollOut, pollHup⟩], 1)) ∧
      ¬Refines ⟨some 0, some 1, none⟩ [⟨0, pollOut, pollHup⟩] ⟨some 1, some 0, none⟩ 2 :=
  ⟨rfl, rfl, fun h => absurd h.ready (by decide)⟩

end ZephyrOS.VfsPoll
