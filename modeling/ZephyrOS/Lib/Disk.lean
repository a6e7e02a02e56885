import Mathlib.Data.List.Basic

/-!
# A disk of sectors, and the disks a sequence of writes passes through

An `Image` is what a disk holds. A program that writes to it leaves a log of the
writes it issued and of how each ended. That a write is reported failed does not say what
is in its sector: what was there, the data after all, or anything else. The states the disk
passes through are the images after each prefix of the log, so "at every moment" is
`Always`, and the rule for it is the one for a sequence of writes that each keep the
property.
-/

namespace ZephyrOS.Lib

open Function List

abbrev Sector := Fin 512 → UInt8

abbrev Image := Nat → Sector

/-- Byte `p % 512` of a sector. -/
def Sector.byte (s : Sector) (p : Nat) : UInt8 := s ⟨p % 512, Nat.mod_lt _ (by decide)⟩

/-- The byte at position `p` from the start of the disk. -/
def byteAt (d : Image) (p : Nat) : UInt8 := Sector.byte (d (p / 512)) p

/-- The 512 bytes of a memory from `start` on. -/
def sectorOf (mem : Nat → UInt8) (start : Nat) : Sector := fun j => mem (start + j)

theorem byte_of_lt {s : Sector} {j : Nat} (h : j < 512) : Sector.byte s j = s ⟨j, h⟩ := by
  unfold Sector.byte
  congr 1
  exact Fin.ext (Nat.mod_eq_of_lt h)

theorem byte_sectorOf {mem : Nat → UInt8} {n p k : Nat} (hk : k / 512 = n)
    (hp : p % 512 = k % 512) : Sector.byte (sectorOf mem (n * 512)) p = mem k := by
  unfold Sector.byte sectorOf
  congr 1
  show n * 512 + p % 512 = k
  omega

theorem byteAt_update {d : Image} (lba : Nat) (s : Sector) (p : Nat) :
    byteAt (update d lba s) p = if p / 512 = lba then Sector.byte s p else byteAt d p := by
  unfold byteAt
  by_cases h : p / 512 = lba
  · rw [if_pos h, h, update_self]
  · rw [if_neg h, update_of_ne h]

/-! ### Writes and their log -/

/-- How a write of a sector ends: done, or reported failed with something left in the sector. -/
inductive Ending where
  | done
  | unchanged
  | stored
  | torn (left : Sector)

def Ending.ok : Ending → Bool
  | .done => true
  | _ => false

/-- What is in the sector after a write of `data`. -/
def Ending.leaves (old data : Sector) : Ending → Sector
  | .done => data
  | .unchanged => old
  | .stored => data
  | .torn left => left

/-- The sector holds what it held or what was written. -/
def Ending.Whole (e : Ending) : Prop := ∀ left, e ≠ .torn left

structure Write where
  lba : Nat
  data : Sector
  ending : Ending

def Write.apply (d : Image) (w : Write) : Image :=
  update d w.lba (w.ending.leaves (d w.lba) w.data)

variable {d : Image} {P : Image → Prop} {log : List Write} {ws : List (Nat × Sector)} {lba : Nat}
  {data : Sector} {io : Nat → Nat → Ending}

/-- A write that is not torn keeps what the write of its data keeps. -/
theorem Ending.Whole.keeps {e : Ending} (he : e.Whole) (h : P d) (h' : P (update d lba data)) :
    P (update d lba (e.leaves (d lba) data)) := by
  cases e with
  | done => exact h'
  | unchanged => rw [leaves, update_eq_self]; exact h
  | stored => exact h'
  | torn left => exact absurd rfl (he left)

/-- The image after the writes of a log. -/
def replay (d : Image) (log : List Write) : Image := log.foldl Write.apply d

theorem replay_append (log log' : List Write) :
    replay d (log ++ log') = replay (replay d log) log' := foldl_append ..

/-- `P` held of the disk before the first write and after each one. -/
def Always (P : Image → Prop) (d : Image) (log : List Write) : Prop :=
  ∀ k, P (replay d (log.take k))

theorem Always.nil (h : P d) : Always P d [] := by
  intro k; rw [take_nil]; exact h

theorem Always.single {w : Write} (h : P d) (h' : P (w.apply d)) : Always P d [w] := by
  intro k
  cases k with
  | zero => exact h
  | succ k => rw [take_succ_cons, take_nil]; exact h'

theorem Always.last (h : Always P d log) : P (replay d log) := by
  have := h log.length
  rwa [take_length] at this

theorem Always.append {log' : List Write}
    (h : Always P d log) (h' : Always P (replay d log) log') : Always P d (log ++ log') := by
  intro k
  rw [take_append]
  rcases Nat.lt_or_ge k log.length with hk | hk
  · rw [Nat.sub_eq_zero_of_le (Nat.le_of_lt hk), take_zero, append_nil]
    exact h k
  · rw [take_of_length_le hk, replay_append]
    exact h' _

theorem Always.mono {Q : Image → Prop}
    (h : Always P d log) (hpq : ∀ d', P d' → Q d') : Always Q d log := fun k => hpq _ (h k)

/-- Every write of the log keeps the property. -/
theorem always_of_keeps : ∀ {log : List Write} {d : Image}, P d →
    (∀ w ∈ log, ∀ d', P d' → P (w.apply d')) → Always P d log
  | [], d, h, _ => Always.nil h
  | w :: log, d, h, hkeep => by
    have hw := hkeep w mem_cons_self d h
    intro k
    cases k with
    | zero => exact h
    | succ k => exact always_of_keeps hw (fun w' hw' => hkeep w' (mem_cons_of_mem _ hw')) k

/-- `log'` goes on from `log`, and `P` holds of the disk from the end of `log` on. -/
def Extends (P : Image → Prop) (d : Image) (log log' : List Write) : Prop :=
  ∃ new, log' = log ++ new ∧ Always P (replay d log) new

namespace Extends

variable {Q : Image → Prop} {log' log'' : List Write}

theorem refl (h : P (replay d log)) : Extends P d log log :=
  ⟨[], (append_nil log).symm, Always.nil h⟩

theorem trans (h : Extends P d log log') (h' : Extends P d log' log'') : Extends P d log log'' := by
  obtain ⟨new, rfl, halways⟩ := h
  obtain ⟨new', rfl, halways'⟩ := h'
  rw [replay_append] at halways'
  exact ⟨new ++ new', append_assoc .., halways.append halways'⟩

theorem mono (h : Extends P d log log') (hpq : ∀ d', P d' → Q d') : Extends Q d log log' := by
  obtain ⟨new, rfl, halways⟩ := h
  exact ⟨new, rfl, halways.mono hpq⟩

theorem last (h : Extends P d log log') : P (replay d log') := by
  obtain ⟨new, rfl, halways⟩ := h
  rw [replay_append]
  exact halways.last

theorem always (h : Extends P d [] log) : Always P d log := by
  obtain ⟨new, rfl, halways⟩ := h
  exact halways

/-- One more write, which changes nothing. -/
theorem unchanged (h : P (replay d log)) (lba : Nat) (data : Sector) :
    Extends P d log (log ++ [⟨lba, data, .unchanged⟩]) := by
  refine ⟨_, rfl, Always.single h ?_⟩
  rw [Write.apply, Ending.leaves, update_eq_self]
  exact h

/-- One more write, which is done. -/
theorem done (h : P (replay d log)) (h' : P (update (replay d log) lba data)) :
    Extends P d log (log ++ [⟨lba, data, .done⟩]) :=
  ⟨_, rfl, Always.single h h'⟩

end Extends

/-! ### Issuing writes until one fails -/

/-- Issue the writes `ws` in order, up to and including the first that fails. The
ending of a write is `io` at the number of writes issued before it and its sector. -/
def writeAll (io : Nat → Nat → Ending) : List (Nat × Sector) → List Write → Bool × List Write
  | [], log => (true, log)
  | (lba, data) :: ws, log =>
    let log' := log ++ [⟨lba, data, io log.length lba⟩]
    if (io log.length lba).ok then writeAll io ws log' else (false, log')

theorem Ending.eq_done {e : Ending} (h : e.ok = true) : e = .done := by
  cases e with
  | done => rfl
  | _ => cases h

/-- What a run of `writeAll` adds to the log: writes from the list with the endings of the
device, all of them, and all done, if it succeeds. -/
theorem writeAll_log (io : Nat → Nat → Ending) : ∀ (ws : List (Nat × Sector)) (log : List Write),
    ∃ new, (writeAll io ws log).2 = log ++ new
      ∧ (∀ w ∈ new, (w.lba, w.data) ∈ ws ∧ ∃ n, w.ending = io n w.lba)
      ∧ ((writeAll io ws log).1 = true → new = ws.map fun p => ⟨p.1, p.2, .done⟩)
  | [], log => ⟨[], by simp [writeAll], by simp, fun _ => rfl⟩
  | (lba, data) :: ws, log => by
    rw [writeAll]
    by_cases hd : (io log.length lba).ok = true
    · rw [if_pos hd]
      obtain ⟨new, hlog, hmem, hall⟩ := writeAll_log io ws (log ++ [⟨lba, data, io log.length lba⟩])
      refine ⟨⟨lba, data, io log.length lba⟩ :: new, ?_, forall_mem_cons.mpr
        ⟨⟨mem_cons_self, _, rfl⟩, fun w hw => ⟨mem_cons_of_mem _ (hmem w hw).1, (hmem w hw).2⟩⟩, fun h => ?_⟩
      · rw [hlog, append_assoc, singleton_append]
      · rw [hall h, map_cons, Ending.eq_done hd]
    · rw [if_neg hd]
      refine ⟨[⟨lba, data, io log.length lba⟩], rfl, ?_, fun h => absurd h (by simp)⟩
      intro w hw
      rw [mem_singleton.mp hw]
      exact ⟨mem_cons_self, _, rfl⟩

/-- A property that the writes of the list keep, however they end, holds all along. -/
theorem writeAll_extends (h : P (replay d log)) (hkeep : ∀ w ∈ ws, ∀ n d', P d' →
    P (update d' w.1 ((io n w.1).leaves (d' w.1) w.2))) : Extends P d log (writeAll io ws log).2 := by
  obtain ⟨new, hlog, hmem, _⟩ := writeAll_log io ws log
  refine ⟨new, hlog, always_of_keeps h fun w hw d' hd' => ?_⟩
  obtain ⟨hin, n, hn⟩ := hmem w hw
  rw [Write.apply, hn]
  exact hkeep (w.lba, w.data) hin n d' hd'

/-- The image with all the writes of a list made. -/
def writes (d : Image) (ws : List (Nat × Sector)) : Image :=
  ws.foldl (fun d p => update d p.1 p.2) d

theorem replay_writeAll (h : (writeAll io ws log).1 = true) :
    replay d (writeAll io ws log).2 = writes (replay d log) ws := by
  obtain ⟨new, hlog, _, hall⟩ := writeAll_log io ws log
  rw [hlog, hall h, replay_append]
  unfold replay writes
  rw [foldl_map]
  rfl

theorem writes_append (ws ws' : List (Nat × Sector)) :
    writes d (ws ++ ws') = writes (writes d ws) ws' := foldl_append ..

theorem writes_of_notMem : ∀ {ws : List (Nat × Sector)} {d : Image},
    (∀ w ∈ ws, w.1 ≠ lba) → writes d ws lba = d lba
  | [], _, _ => rfl
  | w :: ws, d, h => by
    show writes (update d w.1 w.2) ws lba = d lba
    rw [writes_of_notMem fun w' hw' => h w' (mem_cons_of_mem _ hw'),
      update_of_ne (h w mem_cons_self).symm]

/-- When the writes to a sector all store the same data, that is what it holds. -/
theorem writes_of_mem : ∀ {ws : List (Nat × Sector)} {d : Image},
    (∀ w ∈ ws, w.1 = lba → w.2 = data) → (lba, data) ∈ ws → writes d ws lba = data
  | [], _, _, hmem => absurd hmem not_mem_nil
  | w :: ws, d, h, hmem => by
    show writes (update d w.1 w.2) ws lba = data
    by_cases hlater : (lba, data) ∈ ws
    · exact writes_of_mem (fun w' hw' => h w' (mem_cons_of_mem _ hw')) hlater
    have hw : w = (lba, data) := by
      rcases mem_cons.mp hmem with hw | hw
      · exact hw.symm
      · exact absurd hw hlater
    rw [writes_of_notMem, hw, update_self]
    intro w' hw' he
    apply hlater
    rw [← he, ← h w' (mem_cons_of_mem _ hw') he]
    exact hw'

end ZephyrOS.Lib
