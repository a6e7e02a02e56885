import Mathlib.Data.List.Perm.Subperm
import ZephyrOS.Fs.StorageCheckWalk

/-!
# What an accepted volume looks like

`storage_check` keeps one bitmap, and a cluster that is marked twice is an error. So
along an accepted run the chains that were marked are disjoint, and each is a chain
without a repetition. What has to be shown is that the run marked the chain of every
entry that can be reached, and that is a matter of bookkeeping: `Item`s record whose
chain was marked, a list of directories records which ones were walked to the end,
and each walked directory has all its entries in order and its subdirectories among
the walked ones (`DirOk`). Everything that can be reached from the root is then on
the list.
-/

namespace ZephyrOS.Storage

open Lib List Nat

/-! ### Marking -/

/-- From `check` to `check'` exactly the clusters `cs` were marked, each once. -/
structure Marks (check check' : Check) (cs : List Nat) : Prop where
  nodup : cs.Nodup
  fresh : ∀ c ∈ cs, 2 ≤ c ∧ check.owns c = false
  owns : ∀ c, 2 ≤ c → (check'.owns c = true ↔ check.owns c = true ∨ c ∈ cs)

variable {check check' a b : Check} {c : Nat} {mnt : Mount}

theorem Marks.nil (h : check'.ownership = check.ownership) : Marks check check' [] := by
  refine ⟨nodup_nil, by simp, fun c _ => ?_⟩
  unfold Check.owns
  simp [h]

theorem Marks.append {c : Check} {xs ys : List Nat} (h : Marks a b xs) (h' : Marks b c ys) :
    Marks a c (xs ++ ys) := by
  have hnew : ∀ y ∈ ys, a.owns y = false ∧ y ∉ xs := by
    intro y hy
    obtain ⟨h2, hb⟩ := h'.fresh y hy
    have hmt := mt (h.owns y h2).mpr (by simp [hb])
    rw [not_or] at hmt
    exact ⟨by simpa using hmt.1, hmt.2⟩
  refine ⟨?_, ?_, ?_⟩
  · rw [nodup_append]
    refine ⟨h.nodup, h'.nodup, ?_⟩
    intro x hx y hy hxy
    exact (hnew y hy).2 (hxy ▸ hx)
  · intro x hx
    rcases mem_append.mp hx with hx | hx
    · exact h.fresh x hx
    · exact ⟨(h'.fresh x hx).1, (hnew x hx).1⟩
  · intro x h2
    rw [h'.owns x h2, h.owns x h2, mem_append, or_assoc]

/-- Only the bitmap counts. -/
theorem Marks.congr {a' b' : Check} {xs : List Nat} (h : Marks a b xs)
    (ha : a'.ownership = a.ownership) (hb : b'.ownership = b.ownership) : Marks a' b' xs := by
  have h0 : Marks a' a [] := Marks.nil ha.symm
  have h1 : Marks b b' [] := Marks.nil hb
  simpa using h0.append (h.append h1)

/-- A cluster that is not taken yet can be marked. -/
theorem checkMarkCluster_fresh (hv : clusterValid mnt c = true) (hown : a.owns c = false) :
    ∃ b, checkMarkCluster mnt c a = .ok b :=
  ⟨_, by rw [checkMarkCluster, if_neg (by simp [hv]), if_neg (by simp [hown])]⟩

theorem checkMarkCluster_ok (h : checkMarkCluster mnt c check = .ok check') :
    clusterValid mnt c = true ∧ Marks check check' [c] := by
  obtain ⟨hvalid, h⟩ := ite_error_eq_ok.mp h
  obtain ⟨hfree, h⟩ := ite_error_eq_ok.mp h
  cases h
  have hv : clusterValid mnt c = true := by simpa using hvalid
  have h2 := (clusterValid_iff.mp hv).1
  refine ⟨hv, by simp, ?_, ?_⟩
  · intro x hx
    rw [mem_singleton.mp hx]
    exact ⟨h2, by simpa using hfree⟩
  · intro x hx
    unfold Check.owns
    rw [bitAt_setBit, mem_singleton]
    split
    · simp only [true_iff]
      omega
    · exact ⟨.inl, fun hor => hor.resolve_right (by omega)⟩

/-! ### Chains -/

section

variable {read : Nat → Except Err Sector} {vol : Volume} {mnt : Mount}
  {cluster required rounds step size : Nat} {directory : Bool} {first : Nat} {α : Type} {cs : List Nat}
  {dir : Dir} {e : LongEntry} {sub : Nat → List Nat → Prop} {dirs dirs' : List Dir} {parent : Nat}
  {enter : Nat → Check → Except Err Check} {es : List LongEntry}

/-- The loop marks the chain it follows; a file's has the required length. -/
theorem checkChainLoop_ok
    (h : checkChainLoop read vol mnt required rounds step cluster check = .ok check') :
    ∃ cs, Chain mnt (checkNextCluster read vol mnt) cluster cs ∧ Marks check check' cs ∧
      (step < required → step + cs.length = required) := by
  induction rounds generalizing step cluster check with
  | zero => cases h
  | succ rounds ih =>
    rw [checkChainLoop, bind_eq_ok] at h
    obtain ⟨marked, hmark, h⟩ := h
    obtain ⟨n, hn, h⟩ := bind_eq_ok.mp h
    obtain ⟨hv, hm⟩ := checkMarkCluster_ok hmark
    by_cases hend : clusterIsEnd mnt n = true
    · rw [if_pos hend] at h
      obtain ⟨hlen, h⟩ := ite_error_eq_ok.mp h
      cases h
      refine ⟨[cluster], .last hv hn hend, hm.congr rfl rfl, fun hlt => ?_⟩
      rw [length_singleton]
      omega
    · rw [if_neg hend] at h
      obtain ⟨hnext, h⟩ := ite_error_eq_ok.mp h
      obtain ⟨hlen, h⟩ := ite_error_eq_ok.mp h
      rw [not_or, not_or] at hnext
      obtain ⟨cs, hc, hm', hreq⟩ := ih h
      refine ⟨cluster :: cs, .cons hv hn (by simpa using hend) hnext.1 (by simpa using hnext.2.1) hc,
        ?_, fun hlt => ?_⟩
      · exact hm.append (hm'.congr rfl rfl)
      · rw [length_cons]
        omega

/-- The required number is the size over the bytes of a cluster, rounded up. -/
theorem requiredClusters_eq (h : 0 < mnt.sectorsPerCluster) : requiredClusters mnt size
      = (size + (mnt.sectorsPerCluster * 512 - 1)) / (mnt.sectorsPerCluster * 512) := by
  unfold requiredClusters
  have hcb : 0 < mnt.sectorsPerCluster * 512 := Nat.mul_pos h (by decide)
  generalize mnt.sectorsPerCluster * 512 = cb at hcb ⊢
  obtain ⟨q, r, hr, rfl⟩ : ∃ q r, r < cb ∧ size = cb * q + r :=
    ⟨size / cb, size % cb, mod_lt _ hcb, (div_add_mod _ _).symm⟩
  rw [mul_add_div hcb, mul_add_mod, div_eq_of_lt hr, mod_eq_of_lt hr,
    add_assoc (cb * q), mul_add_div hcb]
  by_cases h0 : r = 0
  · rw [if_pos h0, h0, zero_add, div_eq_of_lt (sub_lt hcb Nat.one_pos)]
  · rw [if_neg h0, show r + (cb - 1) = r - 1 + cb by omega, add_div_right _ hcb,
      div_eq_of_lt (by omega)]

theorem requiredClusters_pos (h : size ≠ 0) : 0 < requiredClusters mnt size := by
  unfold requiredClusters
  generalize mnt.sectorsPerCluster * 512 = cb
  by_cases hmod : size % cb = 0
  · rw [if_pos hmod, add_zero]
    have := div_add_mod size cb
    exact Nat.pos_of_ne_zero fun h0 => h (by rw [← this, h0, hmod, mul_zero])
  · rw [if_neg hmod]; exact succ_pos _

theorem checkChain_ok (h : checkChain read vol mnt first size directory check = .ok check') :
    (first = 0 ∧ size = 0 ∧ directory = false ∧ check' = check) ∨
      ∃ cs, Chain mnt (checkNextCluster read vol mnt) first cs ∧ Marks check check' cs ∧
        (directory = false → cs.length = requiredClusters mnt size) := by
  unfold checkChain at h
  by_cases hf : first = 0
  · rw [if_pos hf] at h
    obtain ⟨hz, h⟩ := ite_error_eq_ok.mp h
    cases h
    rw [not_or] at hz
    exact .inl ⟨hf, by simpa using hz.1, by simpa using hz.2, rfl⟩
  rw [if_neg hf] at h
  obtain ⟨hz, h⟩ := ite_error_eq_ok.mp h
  obtain ⟨cs, hc, hm, hreq⟩ := checkChainLoop_ok h
  refine .inr ⟨cs, hc, hm, fun hd => ?_⟩
  have hsize : size ≠ 0 := fun h0 => hz ⟨hd, h0⟩
  have := hreq (requiredClusters_pos hsize)
  omega

/-! ### What is decided about the tree -/

/-- Clusters that can be marked, one after the other. -/
structure Clear (check : Check) (cs : List Nat) : Prop where
  nodup : cs.Nodup
  fresh : ∀ c ∈ cs, 2 ≤ c ∧ check.owns c = false

theorem Clear.left {xs ys : List Nat} (h : Clear a (xs ++ ys)) : Clear a xs :=
  ⟨(nodup_append.mp h.nodup).1, fun c hc => h.fresh c (mem_append_left _ hc)⟩

theorem Clear.right {xs ys : List Nat} (h : Clear a (xs ++ ys)) (hm : Marks a b xs) : Clear b ys := by
  obtain ⟨_, hys, hne⟩ := nodup_append.mp h.nodup
  refine ⟨hys, fun c hc => ?_⟩
  obtain ⟨h2, hown⟩ := h.fresh c (mem_append_right _ hc)
  refine ⟨h2, Bool.eq_false_iff.mpr fun ht => ?_⟩
  rcases (hm.owns c h2).mp ht with ht | hmem
  · rw [hown] at ht; cases ht
  · exact hne c hmem c hc rfl

/-- A part of the check succeeds exactly on the clusters with property `Q`, and marks them. -/
structure Decides (run : Check → Except Err Check) (Q : List Nat → Prop) : Prop where
  sound : ∀ {a b}, run a = .ok b → ∃ cs, Q cs ∧ Marks a b cs
  complete : ∀ {a cs}, Q cs → Clear a cs → ∃ b, run a = .ok b ∧ Marks a b cs

namespace Decides

variable {f g : Check → Except Err Check} {P Q : List Nat → Prop} {e : Err}

theorem done {f : Check → Check} (hf : ∀ a, (f a).ownership = a.ownership) :
    Decides (fun a => .ok (f a)) (· = []) := by
  refine ⟨fun h => ?_, fun hnil _ => ?_⟩
  · cases h
    exact ⟨[], rfl, Marks.nil (hf _)⟩
  · rw [hnil]
    exact ⟨_, rfl, Marks.nil (hf _)⟩

section

variable (hf : Decides f P)
include hf

theorem bind (hg : Decides g Q) :
    Decides (fun a => f a >>= g) fun cs => ∃ xs ys, P xs ∧ Q ys ∧ cs = xs ++ ys := by
  refine ⟨fun h => ?_, fun h hclear => ?_⟩
  · obtain ⟨mid, hmid, h⟩ := bind_eq_ok.mp h
    obtain ⟨xs, hP, hx⟩ := hf.sound hmid
    obtain ⟨ys, hQ, hy⟩ := hg.sound h
    exact ⟨xs ++ ys, ⟨xs, ys, hP, hQ, rfl⟩, hx.append hy⟩
  · obtain ⟨xs, ys, hP, hQ, rfl⟩ := h
    obtain ⟨mid, hmid, hx⟩ := hf.complete hP hclear.left
    obtain ⟨b, hb, hy⟩ := hg.complete hQ (hclear.right hx)
    exact ⟨b, bind_eq_ok.mpr ⟨mid, hmid, hb⟩, hx.append hy⟩

theorem congr (hPQ : ∀ cs, P cs ↔ Q cs) : Decides f Q :=
  (funext fun cs => propext (hPQ cs)) ▸ hf

/-- Only the report is touched before. -/
theorem before {g : Check → Check} (hg : ∀ a, (g a).ownership = a.ownership) :
    Decides (fun a => f (g a)) P :=
  ((done hg).bind hf).congr fun cs => ⟨fun ⟨_, ys, hx, hP, h⟩ => by rw [h, hx]; exact hP,
    fun hP => ⟨[], cs, rfl, hP, rfl⟩⟩

theorem guard {c : Prop} [Decidable c] :
    Decides (fun a => if c then .error e else f a) fun cs => ¬ c ∧ P cs := by
  refine ⟨fun h => ?_, fun h hclear => ?_⟩
  · obtain ⟨hc, h⟩ := ite_error_eq_ok.mp h
    obtain ⟨cs, hP, hm⟩ := hf.sound h
    exact ⟨cs, ⟨hc, hP⟩, hm⟩
  · rw [if_neg h.1]
    exact hf.complete h.2 hclear

theorem after {x : Except Err Unit} :
    Decides (fun a => x >>= fun _ => f a) fun cs => x = .ok () ∧ P cs := by
  cases x with
  | error e => exact ⟨nofun, fun h => nomatch h.1⟩
  | ok u => exact hf.congr fun cs => ⟨fun h => ⟨rfl, h⟩, fun h => h.2⟩

/-- Only the report is touched afterwards. -/
theorem then_report {g : Check → Check}
    (hg : ∀ a, (g a).ownership = a.ownership) : Decides (fun a => f a >>= fun b => .ok (g b)) P :=
  (hf.bind (done hg)).congr fun cs => ⟨fun ⟨xs, _, hP, hy, h⟩ => by rw [h, hy, append_nil]; exact hP,
    fun hP => ⟨cs, [], hP, rfl, (append_nil cs).symm⟩⟩

/-- Only success counts. -/
theorem of_ok (h : ∀ a b, g a = .ok b ↔ f a = .ok b) : Decides g P := by
  refine ⟨fun hb => hf.sound ((h _ _).mp hb), fun hP hclear => ?_⟩
  obtain ⟨b, hb, hm⟩ := hf.complete hP hclear
  exact ⟨b, (h _ _).mpr hb, hm⟩

end

theorem never : Decides (fun _ => .error e) fun _ => False := ⟨nofun, nofun⟩

end Decides

/-- The clusters of the elements of a list, in this order. -/
def Each {α : Type} (Q : α → List Nat → Prop) : List α → List Nat → Prop
  | [], cs => cs = []
  | x :: xs, cs => ∃ own rest, Q x own ∧ Each Q xs rest ∧ cs = own ++ rest

theorem Decides.fold {f : α → Check → Except Err Check} {Q : α → List Nat → Prop}
    {xs : List α} (h : ∀ x ∈ xs, Decides (f x) (Q x)) :
    Decides (fun a => xs.foldlM (fun a x => f x a) a) (Each Q xs) := by
  induction xs with
  | nil => exact Decides.done fun _ => rfl
  | cons x xs ih =>
    exact (h x mem_cons_self).bind (ih fun y hy => h y (mem_cons_of_mem _ hy))

theorem Each.and_iff {p : α → Prop} {Q : α → List Nat → Prop} {xs : List α} :
    Each (fun x cs => p x ∧ Q x cs) xs cs ↔ (∀ x ∈ xs, p x) ∧ Each Q xs cs := by
  induction xs generalizing cs with
  | nil => exact ⟨fun h => ⟨nofun, h⟩, fun h => h.2⟩
  | cons x xs ih =>
    rw [forall_mem_cons]
    refine ⟨fun h => ?_, fun h => ?_⟩
    · obtain ⟨own, rest, hown, hrest, heq⟩ := h
      obtain ⟨hp, hrest⟩ := ih.mp hrest
      exact ⟨⟨hown.1, hp⟩, own, rest, hown.2, hrest, heq⟩
    · obtain ⟨⟨hx, hp⟩, own, rest, hown, hrest, heq⟩ := h
      exact ⟨own, rest, ⟨hx, hown⟩, ih.mpr ⟨hp, hrest⟩, heq⟩

variable (read vol mnt)

/-- The chain of a file: none for an empty file, else one of the length the size calls for. -/
def FileOk (first size : Nat) (cs : List Nat) : Prop :=
  first = 0 ∧ size = 0 ∧ cs = [] ∨ size ≠ 0 ∧ cs.length = requiredClusters mnt size ∧
    Chain mnt (checkNextCluster read vol mnt) first cs

/-- An entry of `dir` is in order and owns the clusters `cs`; `sub` says so of what is below
a subdirectory. -/
def EntryOwns (sub : Nat → List Nat → Prop) (dir : Dir) (parent : Nat) (e : LongEntry)
    (cs : List Nat) : Prop :=
  if e.isDirectory = false then FileOk read vol mnt e.firstCluster e.size cs
  else if textEqual e.name [46] then e.firstCluster = dir.cluster ∧ cs = []
  else if textEqual e.name [46, 46] then
    (e.firstCluster = parent ∨ dir.fixedRoot = true ∧ e.firstCluster = 0) ∧ cs = []
  else ∃ chain below, Chain mnt (checkNextCluster read vol mnt) e.firstCluster chain ∧
    sub e.firstCluster below ∧ cs = chain ++ below

/-- No entry of the list has a namesake at a smaller offset. -/
def NamesChecked (es : List LongEntry) : Prop :=
  ∀ e ∈ es, ∀ e' ∈ es, e'.entryOffset < e.entryOffset → sameName e' e = false

/-- A directory can be read, its names are proper and told apart, and its entries in order. -/
def DirOwns (sub : Nat → List Nat → Prop) (dir : Dir) (parent : Nat) (cs : List Nat) : Prop :=
  ∃ es, dirEntries read vol mnt dir = .ok es ∧ NamesChecked es ∧
    Each (fun e cs => checkNameValid e = .ok () ∧ EntryOwns read vol mnt sub dir parent e cs) es cs

/-- The tree below a directory, of at most so many levels. -/
def TreeOwns : Nat → Dir → Nat → List Nat → Prop
  | 0, dir, parent => DirOwns read vol mnt (fun _ _ => False) dir parent
  | levels + 1, dir, parent =>
    DirOwns read vol mnt (fun first => TreeOwns levels ⟨first, false⟩ dir.cluster) dir parent

variable {read vol mnt}

/-- Distinct clusters of the volume are no more than it has. -/
theorem length_le_of_valid (hnodup : cs.Nodup) (hvalid : ∀ c ∈ cs, clusterValid mnt c = true) :
    cs.length ≤ mnt.totalClusters := by
  have hsub : cs ⊆ range' 2 mnt.totalClusters := by
    intro c hc
    obtain ⟨h2, _, hlt⟩ := clusterValid_iff.mp (hvalid c hc)
    exact mem_range'_1.mpr ⟨h2, by omega⟩
  simpa using (subperm_of_subset hnodup hsub).length_le

theorem checkChainLoop_complete (h : Chain mnt (checkNextCluster read vol mnt) cluster cs)
    (hlen : required ≠ 0 → step + cs.length = required) (hrounds : cs.length ≤ rounds)
    (hclear : Clear a cs) :
    ∃ b, checkChainLoop read vol mnt required rounds step cluster a = .ok b := by
  induction h generalizing rounds step a with
  | last hv hn he =>
    obtain ⟨rounds, rfl⟩ := exists_eq_succ_of_ne_zero (show rounds ≠ 0 by simp at hrounds; omega)
    obtain ⟨mid, hmid⟩ := checkMarkCluster_fresh hv (hclear.fresh _ mem_cons_self).2
    refine ⟨mid.recordStructure, ?_⟩
    rw [checkChainLoop, hmid, ok_bind, hn, ok_bind, if_pos he, if_neg]
    intro hreq
    have := hlen hreq.1
    rw [length_singleton] at this
    omega
  | @cons c n cs hv hn he h0 hbad hc ih =>
    rw [length_cons] at hrounds hlen
    have hpos := hc.length_pos
    obtain ⟨rounds, rfl⟩ := exists_eq_succ_of_ne_zero (show rounds ≠ 0 by omega)
    obtain ⟨mid, hmid⟩ := checkMarkCluster_fresh hv (hclear.fresh _ mem_cons_self).2
    have hrest : Clear mid.recordStructure cs :=
      @Clear.right _ _ [c] cs hclear ((checkMarkCluster_ok hmid).2.congr rfl rfl)
    obtain ⟨b, hb⟩ := @ih mid.recordStructure rounds (step + 1) (fun hreq => by
      omega) (by omega) hrest
    refine ⟨b, ?_⟩
    rw [checkChainLoop, hmid, ok_bind, hn, ok_bind, if_neg (by simp [he]), if_neg, if_neg]
    · exact hb
    · omega
    · simp [h0, hbad, hc.valid n hc.head_mem]

theorem checkChain_complete (hc : Chain mnt (checkNextCluster read vol mnt) first cs)
    (hsize : directory = true ∧ size = 0 ∨ size ≠ 0 ∧ cs.length = requiredClusters mnt size)
    (hclear : Clear a cs) : ∃ b, checkChain read vol mnt first size directory a = .ok b := by
  have h2 := (clusterValid_iff.mp (hc.valid first hc.head_mem)).1
  rw [checkChain, if_neg (by omega), if_neg]
  · refine checkChainLoop_complete hc (fun hreq => ?_)
      (length_le_of_valid hclear.nodup hc.valid) hclear
    rcases hsize with ⟨_, rfl⟩ | ⟨_, hlen⟩
    · simp [requiredClusters] at hreq
    · omega
  · intro hd
    rcases hsize with ⟨ht, _⟩ | ⟨hne, _⟩
    · rw [hd.1] at ht; cases ht
    · exact hne hd.2

theorem checkChain_directory (read : Nat → Except Err Sector) (vol : Volume) (mnt : Mount) (first : Nat) :
    Decides (checkChain read vol mnt first 0 true)
      (Chain mnt (checkNextCluster read vol mnt) first) := by
  have hsound : ∀ {a b}, checkChain read vol mnt first 0 true a = .ok b →
      ∃ cs, Chain mnt (checkNextCluster read vol mnt) first cs ∧ Marks a b cs := by
    intro a b h
    rcases checkChain_ok h with ⟨_, _, hd, _⟩ | ⟨cs, hc, hm, _⟩
    · cases hd
    · exact ⟨cs, hc, hm⟩
  refine ⟨hsound, fun hc hclear => ?_⟩
  obtain ⟨b, hb⟩ := checkChain_complete hc (.inl ⟨rfl, rfl⟩) hclear
  obtain ⟨cs', hc', hm⟩ := hsound hb
  exact ⟨b, hb, hc.unique hc' ▸ hm⟩

theorem checkChain_file (read : Nat → Except Err Sector) (vol : Volume) (mnt : Mount) (first size : Nat) :
    Decides (fun a => if first ≠ 0 ∨ size ≠ 0 then checkChain read vol mnt first size false a
      else .ok a) (FileOk read vol mnt first size) := by
  by_cases hne : first ≠ 0 ∨ size ≠ 0
  · simp only [if_pos hne]
    have hsound : ∀ {a b}, checkChain read vol mnt first size false a = .ok b →
        ∃ cs, FileOk read vol mnt first size cs ∧ Marks a b cs := by
      intro a b h
      rcases checkChain_ok h with ⟨h0, hz, _⟩ | ⟨cs, hc, hm, hlen⟩
      · rw [h0, hz] at hne
        simp at hne
      refine ⟨cs, .inr ⟨fun hz => ?_, hlen rfl, hc⟩, hm⟩
      have hpos := hc.length_pos
      rw [hlen rfl, hz, requiredClusters] at hpos
      simp at hpos
    refine ⟨hsound, fun h hclear => ?_⟩
    rcases h with ⟨h0, hz, _⟩ | ⟨hz, hlen, hc⟩
    · rw [h0, hz] at hne
      simp at hne
    obtain ⟨b, hb⟩ := checkChain_complete hc (.inr ⟨hz, hlen⟩) hclear
    obtain ⟨cs', hc', hm⟩ := hsound hb
    rcases hc' with ⟨_, hz', _⟩ | ⟨_, _, hc'⟩
    · exact absurd hz' hz
    · exact ⟨b, hb, hc.unique hc' ▸ hm⟩
  · simp only [if_neg hne]
    rw [not_or, not_not, not_not] at hne
    refine (Decides.done fun _ => rfl).congr fun cs => ?_
    exact ⟨fun h => .inl ⟨hne.1, hne.2, h⟩, fun h => by
      rcases h with ⟨_, _, h⟩ | ⟨hz, _⟩
      · exact h
      · exact absurd hne.2 hz⟩

theorem checkDirectoryEntry_decides
    {sub : Nat → List Nat → Prop} (henter : ∀ first, Decides (enter first) (sub first)) (dir : Dir)
    (parent : Nat) (e : LongEntry) :
    Decides (checkDirectoryEntry read vol mnt enter dir parent e) fun cs =>
      checkDuplicateNames read vol mnt dir e = .ok () ∧ checkNameValid e = .ok () ∧
        EntryOwns read vol mnt sub dir parent e cs := by
  refine (Decides.after (Decides.after ?_)).congr fun cs => and_left_comm
  unfold EntryOwns
  -- a file, the two dot entries, and a directory that is entered
  by_cases hfile : e.isDirectory = false
  · simp only [if_pos hfile]
    have hrun := ((checkChain_file read vol mnt e.firstCluster e.size).before (g := Check.recordStructure) fun _ => rfl).then_report
      (g := fun b => { b with report.filesVerified := b.report.filesVerified + 1 }) fun _ => rfl
    refine cast (congrArg (Decides · _) (funext fun a => ?_)) hrun
    split <;> rfl
  simp only [if_neg hfile]
  by_cases hdot : textEqual e.name [46] = true
  · simp only [if_pos hdot]
    refine ((Decides.done (f := Check.recordStructure) fun _ => rfl).guard).congr fun cs => ?_
    rw [not_not]
  simp only [if_neg hdot]
  by_cases hdots : textEqual e.name [46, 46] = true
  · simp only [if_pos hdots]
    refine ((Decides.done (f := Check.recordStructure) fun _ => rfl).guard).congr fun cs => ?_
    rw [Decidable.not_and_iff_not_or_not, not_not, not_not]
  simp only [if_neg hdots]
  have hrun := (((checkChain_directory read vol mnt e.firstCluster).before
    (g := Check.recordStructure) fun _ => rfl).bind ((henter e.firstCluster).before
      (g := fun b => { b with report.directoriesVerified := b.report.directoriesVerified + 1 })
        fun _ => rfl)).guard (c := e.firstCluster < 2) (e := .invalid)
  refine hrun.congr fun cs => ⟨fun h => h.2, fun h => ⟨?_, h⟩⟩
  obtain ⟨chain, _, hc, _⟩ := h
  have := (clusterValid_iff.mp (hc.valid _ hc.head_mem)).1
  omega

/-- Walking the directory for duplicates compares the entry with every other one. -/
theorem checkDuplicateNames_ok (h : checkDuplicateNames read vol mnt dir e = .ok ())
    (hes : dirEntries read vol mnt dir = .ok es) :
    ∀ e' ∈ es, e'.entryOffset < e.entryOffset → sameName e' e = false := by
  obtain ⟨duplicate, hwalk, h⟩ := bind_eq_ok.mp h
  obtain ⟨hdup, _⟩ := ite_error_eq_ok.mp h
  obtain ⟨es', hes', hfold⟩ := checkWalkDirectory_iff.mp hwalk
  rw [hes] at hes'
  cases hes'
  -- once a namesake is met the flag stays set
  have hrun : ∀ (l : List LongEntry) b,
      l.foldlM (fun c e' => checkDuplicateVisitor e e' c) b = .ok duplicate →
      b = false ∧ ∀ e' ∈ l, e'.entryOffset < e.entryOffset → sameName e' e = false := by
    intro l
    induction l with
    | nil => intro b hb; cases hb; exact ⟨by simpa using hdup, by simp⟩
    | cons x l ih =>
      intro b hb
      rw [foldlM_cons, bind_eq_ok] at hb
      obtain ⟨b', hb', hl⟩ := hb
      obtain ⟨hf, hrest⟩ := ih b' hl
      unfold checkDuplicateVisitor at hb'
      split at hb'
      · cases hb'; cases hf
      rename_i hx
      cases hb'
      refine ⟨hf, fun e' he' hlt => ?_⟩
      rcases mem_cons.mp he' with rfl | he'
      · simpa [hlt] using hx
      · exact hrest e' he' hlt
  exact (hrun es false hfold).2

/-- No entry has a namesake at a smaller offset, and all the walks over the directory agree. -/
theorem checkDuplicateNames_iff (hes : dirEntries read vol mnt dir = .ok es) :
    (∀ e ∈ es, checkDuplicateNames read vol mnt dir e = .ok ()) ↔ NamesChecked es := by
  refine ⟨fun h e he => checkDuplicateNames_ok (h e he) hes, fun h e he => ?_⟩
  have hfold : ∀ l : List LongEntry, l ⊆ es →
      l.foldlM (fun c e' => checkDuplicateVisitor e e' c) false = .ok false := by
    intro l hl
    induction l with
    | nil => rfl
    | cons x l ih =>
      rw [foldlM_cons, checkDuplicateVisitor, if_neg]
      · exact ih fun y hy => hl (mem_cons_of_mem _ hy)
      · rw [Bool.and_eq_true, decide_eq_true_eq]
        intro hx
        rw [h e he x (hl mem_cons_self) hx.1] at hx
        exact absurd hx.2 (by simp)
  exact bind_eq_ok.mpr ⟨false, checkWalkDirectory_iff.mpr ⟨es, hes, hfold es (Subset.refl _)⟩, rfl⟩

theorem checkWalkDirectory_decides (henter : ∀ first, Decides (enter first) (sub first)) :
    Decides (checkWalkDirectory read vol mnt dir (checkDirectoryEntry read vol mnt enter dir parent))
      (DirOwns read vol mnt sub dir parent) := by
  unfold DirOwns
  cases hes : dirEntries read vol mnt dir with
  | error err =>
    refine ((Decides.never (e := err)).of_ok fun a b => ?_).congr fun cs => ?_
    · rw [checkWalkDirectory_iff, hes]; simp
    · simp
  | ok es =>
    have hrun := Decides.fold fun e (_ : e ∈ es) =>
      @checkDirectoryEntry_decides read vol mnt enter sub henter dir parent e
    refine (hrun.of_ok fun a b => ?_).congr fun cs => ?_
    · rw [checkWalkDirectory_iff, hes]; simp
    · rw [Each.and_iff, checkDuplicateNames_iff hes]; simp

/-- The walk over a tree: induction on the levels that are left. -/
theorem checkDirectoryVisitor_decides (levels : Nat) (dir : Dir) (parent : Nat) :
    Decides (checkWalkDirectory read vol mnt dir
      (checkDirectoryVisitor read vol mnt levels dir parent))
      (TreeOwns read vol mnt levels dir parent) := by
  induction levels generalizing dir parent with
  | zero =>
    exact checkWalkDirectory_decides (fun _ => Decides.never)
  | succ levels ih =>
    exact checkWalkDirectory_decides (fun first => ih ⟨first, false⟩ dir.cluster)

/-- The clusters of the root directory and of what is below it. -/
def RootOwns (read : Nat → Except Err Sector) (vol : Volume) (mnt : Mount) (owned : List Nat) : Prop :=
  ∃ chain below, (if mnt.fsType = .fat12 then chain = []
      else Chain mnt (checkNextCluster read vol mnt) mnt.rootCluster chain) ∧
    -- no deeper than there are clusters: each level has one of its own
    TreeOwns read vol mnt mnt.totalClusters (rootDir mnt) (rootDir mnt).cluster below ∧
    owned = chain ++ below

theorem checkTree_decides : Decides (checkTree read vol mnt) (RootOwns read vol mnt) := by
  have hwalk := (@checkDirectoryVisitor_decides read vol mnt
    mnt.totalClusters (rootDir mnt) (rootDir mnt).cluster).before
    (g := fun b => { b with report.directoriesVerified := 1 }) fun _ => rfl
  unfold checkTree RootOwns
  by_cases h12 : mnt.fsType = .fat12
  · simp only [if_pos h12]
    exact (Decides.done fun _ => rfl).bind hwalk
  · simp only [if_neg h12]
    exact (checkChain_directory read vol mnt mnt.rootCluster).bind hwalk

/-! ### By the entries that own them -/

/-- `.` and `..`, which name a directory that has an entry elsewhere. -/
def LongEntry.isDot (e : LongEntry) : Bool :=
  e.isDirectory && (textEqual e.name [46] || textEqual e.name [46, 46])

/-- The chain of entry number `index` of a directory was marked. -/
structure Item where
  dir : Dir
  index : Nat
  chain : List Nat

variable {items items' : List Item}

/-- The clusters of the items, in the order they were marked. -/
def itemClusters (items : List Item) : List Nat := items.flatMap Item.chain

/-- An entry is in order: its chain is on record, and a subdirectory has been walked. -/
structure EntryOk (read : Nat → Except Err Sector) (vol : Volume) (mnt : Mount)
    (items : List Item) (dirs : List Dir) (dir : Dir) (index : Nat) (e : LongEntry) : Prop where
  file : e.isDirectory = false → (e.firstCluster = 0 ∧ e.size = 0) ∨
    ∃ cs, ⟨dir, index, cs⟩ ∈ items ∧ Chain mnt (checkNextCluster read vol mnt) e.firstCluster cs ∧
      cs.length = requiredClusters mnt e.size
  directory : e.isDirectory = true → e.isDot = false →
    ∃ cs, ⟨dir, index, cs⟩ ∈ items ∧ Chain mnt (checkNextCluster read vol mnt) e.firstCluster cs ∧
      (⟨e.firstCluster, false⟩ : Dir) ∈ dirs

/-- A directory was walked to its end and every entry found in order. -/
def DirOk (read : Nat → Except Err Sector) (vol : Volume) (mnt : Mount)
    (items : List Item) (dirs : List Dir) (dir : Dir) : Prop :=
  ∃ es, dirEntries read vol mnt dir = .ok es ∧ NamesChecked es ∧
    ∀ i e, es[i]? = some e → EntryOk read vol mnt items dirs dir i e

theorem EntryOk.mono {i : Nat} (h : EntryOk read vol mnt items dirs dir i e) (hi : items ⊆ items')
    (hd : dirs ⊆ dirs') : EntryOk read vol mnt items' dirs' dir i e := by
  refine ⟨fun hf => ?_, fun hdir hdot => ?_⟩
  · rcases h.file hf with h0 | ⟨cs, hmem, hc, hlen⟩
    · exact .inl h0
    · exact .inr ⟨cs, hi hmem, hc, hlen⟩
  · obtain ⟨cs, hmem, hc, hsub⟩ := h.directory hdir hdot
    exact ⟨cs, hi hmem, hc, hd hsub⟩

theorem DirOk.mono (h : DirOk read vol mnt items dirs dir) (hi : items ⊆ items')
    (hd : dirs ⊆ dirs') : DirOk read vol mnt items' dirs' dir := by
  obtain ⟨es, hes, hn, he⟩ := h
  exact ⟨es, hes, hn, fun i e hie => (he i e hie).mono hi hd⟩

/-- The clusters of a part of the tree, with the entries they belong to, and its directories. -/
structure Listed (read : Nat → Except Err Sector) (vol : Volume) (mnt : Mount) (cs : List Nat)
    (items : List Item) (dirs : List Dir) : Prop where
  clusters : cs = itemClusters items
  walked : ∀ d ∈ dirs, DirOk read vol mnt items dirs d

theorem Listed.append {xs ys : List Nat} (h : Listed read vol mnt xs items dirs)
    (h' : Listed read vol mnt ys items' dirs') :
    Listed read vol mnt (xs ++ ys) (items ++ items') (dirs ++ dirs') := by
  refine ⟨?_, fun d hd => ?_⟩
  · rw [h.clusters, h'.clusters, itemClusters, itemClusters, itemClusters, flatMap_append]
  · rcases mem_append.mp hd with hd | hd
    · exact (h.walked d hd).mono (subset_append_left _ _) (subset_append_left _ _)
    · exact (h'.walked d hd).mono (subset_append_right _ _) (subset_append_right _ _)

theorem Listed.item (dir : Dir) (i : Nat) (cs : List Nat) :
    Listed read vol mnt cs [⟨dir, i, cs⟩] [] := ⟨by simp [itemClusters], by simp⟩

section

variable
  (hsub : ∀ first below, sub first below → ∃ items dirs, Listed read vol mnt below items dirs ∧ (⟨first, false⟩ : Dir) ∈ dirs)
include hsub

theorem EntryOwns.listed (h : EntryOwns read vol mnt sub dir parent e cs) (i : Nat) :
    ∃ items dirs, Listed read vol mnt cs items dirs ∧ EntryOk read vol mnt items dirs dir i e := by
  have hdot : cs = [] → e.isDirectory = true → e.isDot = true → ∃ items dirs,
      Listed read vol mnt cs items dirs ∧ EntryOk read vol mnt items dirs dir i e := by
    intro hcs hdir hd
    exact ⟨[], [], ⟨hcs, by simp⟩, by simp [hdir], by simp [hd]⟩
  unfold EntryOwns at h
  split_ifs at h with hfile h1 h2
  · rcases h with ⟨h0, hz, hcs⟩ | ⟨_, hlen, hc⟩
    · exact ⟨[], [], ⟨hcs, by simp⟩, fun _ => .inl ⟨h0, hz⟩, by simp [hfile]⟩
    · exact ⟨_, _, Listed.item dir i cs,
        fun _ => .inr ⟨cs, mem_singleton.mpr rfl, hc, hlen⟩, by simp [hfile]⟩
  · exact hdot h.2 (by simpa using hfile) (by simp_all [LongEntry.isDot])
  · exact hdot h.2 (by simpa using hfile) (by simp_all [LongEntry.isDot])
  · obtain ⟨chain, below, hc, hbelow, rfl⟩ := h
    obtain ⟨items, dirs, hl, hmem⟩ := hsub _ _ hbelow
    exact ⟨_, _, (Listed.item dir i chain).append hl, fun hf => absurd hf hfile,
      fun _ _ => ⟨chain, mem_cons_self, hc, hmem⟩⟩

theorem DirOwns.listed (h : DirOwns read vol mnt sub dir parent cs) :
    ∃ items dirs, Listed read vol mnt cs items dirs ∧ dir ∈ dirs := by
  obtain ⟨es, hes, hnames, heach⟩ := h
  have hall : ∀ l cs first, Each (fun e cs =>
      checkNameValid e = .ok () ∧ EntryOwns read vol mnt sub dir parent e cs) l cs →
      ∃ items dirs, Listed read vol mnt cs items dirs ∧
        ∀ i e, l[i]? = some e → EntryOk read vol mnt items dirs dir (first + i) e := by
    intro l
    induction l with
    | nil => exact fun cs first h => ⟨[], [], ⟨h, by simp⟩, by simp⟩
    | cons x l ih =>
      intro cs first h
      obtain ⟨own, rest, hown, hrest, rfl⟩ := h
      obtain ⟨items, dirs, hl, hok⟩ := hown.2.listed hsub first
      obtain ⟨items', dirs', hl', hok'⟩ := ih rest (first + 1) hrest
      refine ⟨_, _, hl.append hl', fun i e he => ?_⟩
      cases i with
      | zero =>
        cases he
        exact hok.mono (subset_append_left _ _) (subset_append_left _ _)
      | succ i =>
        rw [show first + (i + 1) = first + 1 + i by omega]
        exact (hok' i e he).mono (subset_append_right _ _) (subset_append_right _ _)
  obtain ⟨items, dirs, hl, hok⟩ := hall es cs 0 heach
  have hsubset : dirs ⊆ dir :: dirs := subset_cons_self _ _
  refine ⟨items, dir :: dirs, ⟨hl.clusters, fun d hd => ?_⟩, mem_cons_self⟩
  rcases mem_cons.mp hd with rfl | hd
  · refine ⟨es, hes, hnames, fun i e hie => ?_⟩
    have := hok i e hie
    rw [zero_add] at this
    exact this.mono (Subset.refl _) hsubset
  · exact (hl.walked d hd).mono (Subset.refl _) hsubset

end

theorem TreeOwns.listed {levels : Nat} (h : TreeOwns read vol mnt levels dir parent cs) :
    ∃ items dirs, Listed read vol mnt cs items dirs ∧ dir ∈ dirs := by
  induction levels generalizing dir parent cs with
  | zero => exact DirOwns.listed (fun _ _ hf => hf.elim) h
  | succ levels ih => exact DirOwns.listed (fun _ _ => ih) h

end

end ZephyrOS.Storage
