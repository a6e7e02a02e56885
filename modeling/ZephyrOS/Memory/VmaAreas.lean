import ZephyrOS.Memory.Vma
import ZephyrOS.Lib.Intervals
import ZephyrOS.Lib.Outcome
import Mathlib.Order.Bounds.Basic

/-!
# The list of areas

What the searches of `vma.c` find and what its insertion and its cuts leave behind, for the
list alone: it stays spaced, every area is one of the image's four or a dynamic one, and
the dynamic ones stay within their number and their size.
-/

namespace ZephyrOS.Vma

open ZephyrOS.Memory (pageSize)

open Lib Nat List
open ZephyrOS.Paging (userSpaceStart userSpaceEnd)

/-- The area is one of the image's, a page long, or it is a dynamic one. -/
structure AreaOk (a : VmArea) : Prop where
  startAligned : a.startAddr % pageSize = 0
  endAligned : a.endAddr % pageSize = 0
  kind : a.isDynamic = true ∨
    (∃ f ∈ imageAreas, a.startAddr = f.1) ∧ a.endAddr = a.startAddr + pageSize

def VmArea.size (a : VmArea) : Nat := a.endAddr - a.startAddr

/-- How many dynamic areas there are. -/
def dynamicCount (l : List VmArea) : Nat := (l.filter VmArea.isDynamic).length

/-- How much they hold together. -/
def dynamicBytes (l : List VmArea) : Nat := ((l.filter VmArea.isDynamic).map VmArea.size).sum

structure Areas (l : List VmArea) : Prop where
  /-- In order, not empty and disjoint. -/
  spaced : Spaced VmArea.startAddr VmArea.endAddr l
  ok : ∀ a ∈ l, AreaOk a
  few : dynamicCount l ≤ maxDynamicVmas
  small : dynamicBytes l ≤ maxAnonymousBytes

variable {a : VmArea} {l l' m : List VmArea} {n x y : Nat} {c : VmArea} {l₁ l₂ : List VmArea}

theorem isDynamic_iff : a.isDynamic = true ↔ mmapStart ≤ a.startAddr ∧ a.endAddr ≤ mmapEnd := by
  simp [VmArea.isDynamic]

theorem areas_nil : Areas [] :=
  ⟨spaced_nil, fun _ ha => absurd ha not_mem_nil, zero_le _, zero_le _⟩

/-- Where the areas of an image start. -/
theorem imageAreas_start {f : Nat × Nat} (hf : f ∈ imageAreas) :
    f.1 % pageSize = 0 ∧ userSpaceStart ≤ f.1 ∧
      (f.1 + pageSize ≤ mmapStart ∨ mmapEnd ≤ f.1 ∧ f.1 + pageSize ≤ userSpaceEnd) := by
  simp only [imageAreas, mem_cons, not_mem_nil, or_false] at hf
  rcases hf with rfl | rfl | rfl | rfl
  · exact ⟨by decide, by decide, .inl (by decide)⟩
  · exact ⟨by decide, by decide, .inl (by decide)⟩
  · exact ⟨by decide, by decide, .inl (by decide)⟩
  · exact ⟨by decide, by decide, .inr ⟨by decide, by decide⟩⟩

/-- Every area lies in the user's window. -/
theorem AreaOk.window (h : AreaOk a) : userSpaceStart ≤ a.startAddr ∧ a.endAddr ≤ userSpaceEnd := by
  have h1 : userSpaceStart ≤ mmapStart := by decide
  have h2 : mmapEnd ≤ userSpaceEnd := by decide
  have h3 : mmapStart ≤ userSpaceEnd := by decide
  rcases h.kind with hd | ⟨⟨f, hf, hs⟩, he⟩
  · obtain ⟨h4, h5⟩ := isDynamic_iff.mp hd
    omega
  · obtain ⟨_, h4, h5⟩ := imageAreas_start hf
    omega

/-- What reaches into the range of the dynamic areas is one of them. -/
theorem AreaOk.dynamic_of_reach (h : AreaOk a) (hlo : mmapStart < a.endAddr)
    (hhi : a.startAddr < mmapEnd) : a.isDynamic = true := by
  rcases h.kind with hd | ⟨⟨f, hf, hs⟩, he⟩
  · exact hd
  · obtain ⟨_, _, h5⟩ := imageAreas_start hf
    omega

theorem Areas.length_lt (h : Areas l) : l.length < 4294967295 := by
  have hle := h.spaced.length_le (by decide)
    fun a ha => (h.ok a ha).window
  have : userSpaceEnd - userSpaceStart < 4294967295 := by decide
  omega

/-! ### Sums over the list -/

theorem dynamicCount_append : dynamicCount (l ++ m) = dynamicCount l + dynamicCount m := by
  simp [dynamicCount]

theorem dynamicBytes_append : dynamicBytes (l ++ m) = dynamicBytes l + dynamicBytes m := by
  simp [dynamicBytes]

theorem dynamicCount_cons :
    dynamicCount (a :: l) = (if a.isDynamic then 1 else 0) + dynamicCount l := by
  unfold dynamicCount
  rw [filter_cons]
  split
  · rw [length_cons, add_comm]
  · rw [zero_add]

theorem dynamicBytes_cons :
    dynamicBytes (a :: l) = (if a.isDynamic then a.size else 0) + dynamicBytes l := by
  unfold dynamicBytes
  rw [filter_cons]
  split
  · rw [map_cons, sum_cons]
  · rw [zero_add]

theorem dynamicCount_perm (h : l.Perm m) : dynamicCount l = dynamicCount m :=
  (h.filter _).length_eq

theorem dynamicBytes_perm (h : l.Perm m) : dynamicBytes l = dynamicBytes m :=
  ((h.filter _).map _).sum_nat

/-- `resource_dynamic_usage` counts the dynamic areas and their bytes. -/
theorem dynamicUsage_ok {bytes vmas bytes' vmas' : Nat}
    (h : dynamicUsage l bytes vmas = .ok (bytes', vmas')) :
    bytes' = bytes + dynamicBytes l ∧ vmas' = vmas + dynamicCount l := by
  induction l generalizing bytes vmas with
  | nil =>
    cases h
    exact ⟨rfl, rfl⟩
  | cons a l ih =>
    rw [dynamicUsage] at h
    rw [dynamicBytes_cons, dynamicCount_cons]
    split at h
    · rename_i hd
      rw [if_pos hd, if_pos hd]
      simp only [ite_error_eq_ok] at h
      obtain ⟨_, _, _, h⟩ := h
      obtain ⟨h1, h2⟩ := ih h
      unfold VmArea.size
      omega
    · rename_i hd
      rw [if_neg hd, if_neg hd]
      obtain ⟨h1, h2⟩ := ih h
      omega

/-! ### Insertion -/

/-- Behind an area that starts no later, the insertion finds the place. -/
theorem insertAfter_ok (h : insertAfter a (c :: l) = .ok l')
    (hc : c.startAddr ≤ a.startAddr) (hs : Spaced VmArea.startAddr VmArea.endAddr (c :: l))
    (ha : a.startAddr < a.endAddr) :
    Spaced VmArea.startAddr VmArea.endAddr l' ∧ l'.Perm (a :: c :: l) := by
  induction l generalizing c l' with
  | nil =>
    obtain ⟨hle, h⟩ := ite_error_eq_ok.mp h
    cases h
    refine ⟨(spaced_single ha).cons (hs.pos c mem_cons_self) fun b hb => ?_, Perm.swap ..⟩
    rw [mem_singleton.mp hb]
    omega
  | cons n l ih =>
    have hcn := hs.head_le n mem_cons_self
    have hcpos := hs.pos c mem_cons_self
    rw [insertAfter] at h
    split at h
    · -- the place is further on
      obtain ⟨r, hrec, rfl⟩ := map_eq_ok.mp h
      obtain ⟨h1, h2⟩ := ih hrec (by omega) hs.tail
      refine ⟨h1.cons hcpos fun b hb => ?_, ?_⟩
      · rcases mem_cons.mp (h2.mem_iff.mp hb) with rfl | hb
        · omega
        · exact hs.head_le b hb
      · exact (h2.cons c).trans (Perm.swap ..)
    · obtain ⟨hno, h⟩ := ite_error_eq_ok.mp h
      cases h
      have hna : a.endAddr ≤ n.startAddr := by omega
      have hlast : ∀ b ∈ n :: l, a.endAddr ≤ b.startAddr :=
        forall_mem_cons.mpr ⟨hna, hs.tail.tail_ge hna⟩
      exact ⟨(hs.tail.cons ha hlast).cons hcpos (forall_mem_cons.mpr ⟨by omega, hs.head_le⟩),
        Perm.swap ..⟩

/-- **What `process_vma_insert_sorted` inserts keeps the list spaced.** -/
theorem insertSorted_ok (h : insertSorted a l = .ok l')
    (hs : Spaced VmArea.startAddr VmArea.endAddr l) :
    Spaced VmArea.startAddr VmArea.endAddr l' ∧ l'.Perm (a :: l) := by
  obtain ⟨hvalid, h⟩ := ite_error_eq_ok.mp h
  have ha : a.startAddr < a.endAddr := by omega
  cases l with
  | nil =>
    cases h
    exact ⟨spaced_single ha, Perm.refl _⟩
  | cons c l =>
    dsimp only at h
    split at h
    · obtain ⟨hle, h⟩ := ite_error_eq_ok.mp h
      cases h
      have hle : a.endAddr ≤ c.startAddr := by omega
      exact ⟨hs.cons ha (forall_mem_cons.mpr ⟨hle, hs.tail_ge hle⟩), Perm.refl _⟩
    · obtain ⟨h1, h2⟩ := insertAfter_ok h (by omega) hs ha
      exact ⟨h1, h2⟩

/-- Behind an area that starts no later, an area that meets no other is let in. -/
theorem insertAfter_of_clear (hc : c.startAddr ≤ a.startAddr)
    (hs : Spaced VmArea.startAddr VmArea.endAddr (c :: l)) (ha : a.startAddr < a.endAddr)
    (hclear : Clear VmArea.startAddr VmArea.endAddr (c :: l) a.startAddr a.endAddr) :
    ∃ l', insertAfter a (c :: l) = .ok l' := by
  induction l generalizing c with
  | nil =>
    have := hclear c mem_cons_self
    exact ⟨_, if_neg (by omega)⟩
  | cons n l ih =>
    have hc' := hclear c mem_cons_self
    have hn := hclear n (mem_cons_of_mem _ mem_cons_self)
    have hnpos := hs.tail.pos n mem_cons_self
    rw [insertAfter]
    split
    · rename_i hlt
      obtain ⟨r, hr⟩ := ih (le_of_lt hlt) hs.tail fun b hb =>
        hclear b (mem_cons_of_mem _ hb)
      exact ⟨c :: r, by rw [hr]; rfl⟩
    · exact ⟨_, if_neg (by omega)⟩

/-! ### Searches -/

/-- `[x, x + n)` lies in the range of the dynamic areas, and no area reaches into it. -/
structure Gap (l : List VmArea) (n x : Nat) : Prop where
  low : mmapStart ≤ x
  high : x + n ≤ mmapEnd
  clear : Clear VmArea.startAddr VmArea.endAddr l x (x + n)

/-- An answer of the search for a gap of length `n` from `c` on: the first one there is, which
is at `c` or right behind an area, or that there is none. -/
def Finds (l : List VmArea) (n c : Nat) : Except Err Nat → Prop
  | .ok x => c ≤ x ∧ Gap l n x ∧ (x = c ∨ ∃ a ∈ l, x = a.endAddr) ∧ ∀ y, c ≤ y → Gap l n y → x ≤ y
  | .error e => e = .mem ∧ ∀ y, c ≤ y → ¬ Gap l n y

theorem Gap.tail (h : Gap (a :: l) n x) : Gap l n x :=
  ⟨h.low, h.high, fun b hb => h.clear b (mem_cons_of_mem _ hb)⟩

variable {c : Nat}

/-- The room behind the last area that counts. -/
theorem lastGap_finds (hc : mmapStart ≤ c) (hl : ∀ a ∈ l, mmapEnd ≤ a.startAddr) :
    Finds l n c (lastGap n c) := by
  unfold lastGap
  split
  · refine ⟨le_refl c, ⟨hc, by omega, fun a ha => ?_⟩, .inl rfl, fun y hy _ => hy⟩
    have := hl a ha
    omega
  · refine ⟨rfl, fun y hy hgap => ?_⟩
    have := hgap.high
    omega

/-- An area that is passed over: from `c'` on it is out of the way, and before `c'` it is in
the way of everything. -/
theorem Finds.pass {c' : Nat} {r : Except Err Nat} (h : Finds l n c' r) (hle : c ≤ c')
    (hfree : a.endAddr ≤ c') (hhit : ∀ y, c ≤ y → y < c' → ¬ Gap (a :: l) n y)
    (hend : c' = c ∨ c' = a.endAddr) : Finds (a :: l) n c r := by
  have hfrom : ∀ y, c ≤ y → Gap (a :: l) n y → c' ≤ y := by
    intro y hy hgap
    by_contra hlt
    exact hhit y hy (by omega) hgap
  cases r with
  | error e => exact ⟨h.1, fun y hy hgap => h.2 y (hfrom y hy hgap) hgap.tail⟩
  | ok x =>
    obtain ⟨hx, hgap, hat, hleast⟩ := h
    refine ⟨by omega, ⟨hgap.low, hgap.high, ?_⟩, ?_, fun y hy hy' =>
      hleast y (hfrom y hy hy') hy'.tail⟩
    · exact forall_mem_cons.mpr ⟨.inr (by omega), hgap.clear⟩
    · rcases hat with rfl | ⟨b, hb, hxb⟩
      · exact hend.imp id fun he => ⟨a, mem_cons_self, he⟩
      · exact .inr ⟨b, mem_cons_of_mem _ hb, hxb⟩

/-- The loop of `process_vma_find_gap`, from any candidate on. -/
theorem findGapLoop_finds (hn : 0 < n) (hs : Spaced VmArea.startAddr VmArea.endAddr l)
    (hc : mmapStart ≤ c) : Finds l n c (findGapLoop n l c) := by
  induction l generalizing c with
  | nil => exact lastGap_finds hc fun _ ha => absurd ha not_mem_nil
  | cons a l ih =>
    rw [findGapLoop]
    split
    · exact (ih hs.tail hc).pass (le_refl c) (by omega) (fun y _ _ => by omega) (.inl rfl)
    split
    · rename_i hend
      exact lastGap_finds hc (forall_mem_cons.mpr ⟨hend, hs.tail_ge hend⟩)
    split
    · have hle : c + n ≤ a.startAddr := by omega
      have hclear : ∀ b ∈ a :: l, c + n ≤ b.startAddr := forall_mem_cons.mpr ⟨hle, hs.tail_ge hle⟩
      exact ⟨le_refl c, ⟨hc, by omega, fun b hb => .inl (hclear b hb)⟩, .inl rfl, fun y hy _ => hy⟩
    · split
      · -- up to its end the area leaves no room
        refine (ih hs.tail (by omega)).pass (by omega) (le_refl _) (fun y hy hlt hgap => ?_)
          (.inr rfl)
        have := hgap.clear a mem_cons_self
        omega
      · exact (ih hs.tail hc).pass (le_refl c) (by omega) (fun y _ _ => by omega) (.inl rfl)

/-- A list that `process_vma_insert_sorted` can have built: in order, disjoint, and every area
made of pages of the user's window. -/
structure ValidList (l : List VmArea) : Prop where
  spaced : Spaced VmArea.startAddr VmArea.endAddr l
  pages : ∀ a ∈ l, a.startAddr % pageSize = 0 ∧ a.endAddr % pageSize = 0
  window : ∀ a ∈ l, userSpaceStart ≤ a.startAddr ∧ a.endAddr ≤ userSpaceEnd

theorem Areas.valid (h : Areas l) : ValidList l :=
  ⟨h.spaced, fun a ha => ⟨(h.ok a ha).startAligned, (h.ok a ha).endAligned⟩,
    fun a ha => (h.ok a ha).window⟩

theorem findGap_finds (hn : n ≠ 0) (hl : ValidList l) : Finds l n mmapStart (findGap l n) := by
  unfold findGap
  rw [if_neg hn]
  exact findGapLoop_finds (Nat.pos_of_ne_zero hn) hl.spaced (le_refl _)

/-- What is found is a gap that starts a page. -/
theorem findGap_ok (hl : ValidList l) (h : findGap l n = .ok x) : Gap l n x ∧ x % pageSize = 0 := by
  have hn : n ≠ 0 := fun hc => by rw [findGap, if_pos hc] at h; cases h
  have hfind := findGap_finds hn hl
  rw [h] at hfind
  obtain ⟨_, hgap, hat, _⟩ := hfind
  refine ⟨hgap, ?_⟩
  rcases hat with rfl | ⟨a, ha, rfl⟩
  · decide
  · exact (hl.pages a ha).2

/-- An area made of a gap is let in. -/
theorem insertSorted_of_gap (hl : ValidList l) (hn : n ≠ 0) (hround : n % pageSize = 0)
    (hgap : Gap l n x ∧ x % pageSize = 0) (hs : a.startAddr = x) (he : a.endAddr = x + n) :
    ∃ l', insertSorted a l = .ok l' := by
  obtain ⟨⟨hlow, hhigh, hclear⟩, hal⟩ := hgap
  have h1 : userSpaceStart ≤ mmapStart := by decide
  have h2 : mmapEnd ≤ userSpaceEnd := by decide
  have hround' : (x + n) % pageSize = 0 := by rw [add_mod, hal, hround, zero_mod]
  rw [← he, ← hs] at hclear
  unfold insertSorted
  rw [if_neg (by rw [hs, he]; omega)]
  split
  · exact ⟨_, rfl⟩
  rename_i c l
  have hc := hclear c mem_cons_self
  have hpos := hl.spaced.pos c mem_cons_self
  split
  · exact ⟨_, if_neg (by omega)⟩
  · exact insertAfter_of_clear (by omega) hl.spaced (by omega) hclear

/-- **`process_vma_mmap` finds room exactly when there is some.** Of the gaps that start the
range or follow an area the search returns the lowest, it fails exactly when no interval of that
length is free, and what it returns can be inserted. -/
theorem findGap_lowest (hl : ValidList l) (hn : n ≠ 0) (hround : n % pageSize = 0) :
    (∀ x, findGap l n = .ok x ↔
      IsLeast { y | Gap l n y ∧ (y = mmapStart ∨ ∃ a ∈ l, y = a.endAddr) } x) ∧
    ((∃ x, findGap l n = .ok x) ↔ ∃ y, Gap l n y) ∧
    (findGap l n = .error .mem ↔ ¬ ∃ y, Gap l n y) ∧
    (∀ x area, findGap l n = .ok x → area.startAddr = x → area.endAddr = x + n →
      ∃ l', insertSorted area l = .ok l') ∧
    ∀ list, findGap list 0 = .error .null := by
  have hzero : ∀ list, findGap list 0 = .error .null := fun _ => if_pos rfl
  have hfind := findGap_finds hn hl
  cases hr : findGap l n with
  | error e =>
    rw [hr] at hfind
    obtain ⟨rfl, hnone⟩ := hfind
    have hno : ¬ ∃ y, Gap l n y := fun ⟨y, hy⟩ => hnone y hy.low hy
    refine ⟨fun x => ⟨nofun, fun hx => absurd ⟨x, hx.1.1⟩ hno⟩, ⟨nofun, fun h => absurd h hno⟩,
      ⟨fun _ => hno, fun _ => rfl⟩, nofun, hzero⟩
  | ok x =>
    rw [hr] at hfind
    obtain ⟨_, hgap, hat, hleast⟩ := hfind
    have hx : IsLeast { y | Gap l n y ∧ (y = mmapStart ∨ ∃ a ∈ l, y = a.endAddr) } x :=
      ⟨⟨hgap, hat⟩, fun y hy => hleast y hy.1.low hy.1⟩
    refine ⟨fun y => ⟨fun h => ?_, fun h => ?_⟩, ⟨fun _ => ⟨x, hgap⟩, fun _ => ⟨x, rfl⟩⟩,
      ⟨nofun, fun h => absurd ⟨x, hgap⟩ h⟩, fun y area h hs he => ?_, hzero⟩
    · cases h
      exact hx
    · rw [hx.unique h]
    · cases h
      exact insertSorted_of_gap hl hn hround (findGap_ok hl hr) hs he

/-- Behind an area that starts the range. -/
theorem findGap_lowest_behind :
    let l : List VmArea := [⟨mmapStart, mmapStart + pageSize, vmAnonymous, 0, 0⟩]
    IsLeast { y | Gap l pageSize y ∧ (y = mmapStart ∨ ∃ a ∈ l, y = a.endAddr) }
      (mmapStart + pageSize) :=
  ((findGap_lowest ⟨spaced_single (by decide), by decide, by decide⟩ (by decide)
    (by decide)).1 _).mp rfl

/-- A length of 0 is refused, whatever is free. -/
theorem findGap_zero : ValidList [] ∧ findGap [] 0 = .error .null ∧ Gap [] 0 mmapStart :=
  ⟨areas_nil.valid, rfl, by decide, by decide, fun _ ha => absurd ha not_mem_nil⟩

theorem findContaining_some (h : findContaining x y l = some (l₁, a, l₂)) :
    l = l₁ ++ a :: l₂ ∧ a.startAddr ≤ x ∧ y ≤ a.endAddr := by
  induction l generalizing l₁ with
  | nil => exact absurd h (by simp [findContaining])
  | cons c l ih =>
    rw [findContaining] at h
    split at h
    · rename_i hin
      cases h
      exact ⟨rfl, hin⟩
    split at h
    · cases h
    cases hrec : findContaining x y l with
    | none =>
      rw [hrec] at h
      cases h
    | some r =>
      obtain ⟨r₁, b, r₂⟩ := r
      rw [hrec] at h
      cases h
      obtain ⟨h1, h2⟩ := ih hrec
      exact ⟨by rw [h1]; rfl, h2⟩

theorem findPage_some (h : findPage x l = some a) : a ∈ l ∧ a.startAddr ≤ x ∧ x < a.endAddr := by
  induction l with
  | nil => exact absurd h (by simp [findPage])
  | cons c l ih =>
    rw [findPage] at h
    split at h
    · rename_i hin
      cases h
      exact ⟨mem_cons_self, hin⟩
    split at h
    · cases h
    obtain ⟨h1, h2⟩ := ih h
    exact ⟨mem_cons_of_mem _ h1, h2⟩

/-! ### The list after an insertion and after a cut -/

/-- **An insertion within the limits.** -/
theorem Areas.insert (h : Areas l) (hins : insertSorted a l = .ok l') (ha : AreaOk a)
    (hfew : dynamicCount (a :: l) ≤ maxDynamicVmas)
    (hsmall : dynamicBytes (a :: l) ≤ maxAnonymousBytes) : Areas l' := by
  obtain ⟨h1, h2⟩ := insertSorted_ok hins h.spaced
  refine ⟨h1, fun b hb => ?_, by rw [dynamicCount_perm h2]; exact hfew,
    by rw [dynamicBytes_perm h2]; exact hsmall⟩
  rcases mem_cons.mp (h2.mem_iff.mp hb) with rfl | hb
  · exact ha
  · exact h.ok b hb

/-- The areas `r` are what is left of the dynamic area `a` without `[x, y)`. -/
structure Pieces (a : VmArea) (x y : Nat) (r : List VmArea) : Prop where
  spaced : Spaced VmArea.startAddr VmArea.endAddr r
  inside : ∀ b ∈ r, a.startAddr ≤ b.startAddr ∧ b.endAddr ≤ a.endAddr
  aligned : ∀ b ∈ r, b.startAddr % pageSize = 0 ∧ b.endAddr % pageSize = 0
  covers : ∀ z, a.startAddr ≤ z → z < a.endAddr → ¬ (x ≤ z ∧ z < y) →
    Covers VmArea.startAddr VmArea.endAddr r z
  bytes : (r.map VmArea.size).sum ≤ a.size
  /-- Only a hole leaves two. -/
  length : r.length ≤ 1 ∨ r.length = 2 ∧ a.startAddr < x ∧ y < a.endAddr

/-- The four shapes of `process_vma_munmap`. -/
theorem remains_pieces {right : Option VmArea} (ha : AreaOk a) (hlo : a.startAddr ≤ x)
    (hlt : x < y) (hhi : y ≤ a.endAddr) (hx : x % pageSize = 0) (hy : y % pageSize = 0)
    (hright : a.startAddr < x → y < a.endAddr →
      ∃ r, right = some r ∧ r.startAddr = y ∧ r.endAddr = a.endAddr) :
    Pieces a x y (remains a x y n right) := by
  have hsa := ha.startAligned
  have hea := ha.endAligned
  -- one piece: an end of the area, or its beginning
  have hone : ∀ b : VmArea, b.startAddr < b.endAddr → a.startAddr ≤ b.startAddr →
      b.endAddr ≤ a.endAddr → b.startAddr % pageSize = 0 → b.endAddr % pageSize = 0 →
      (∀ z, a.startAddr ≤ z → z < a.endAddr → ¬ (x ≤ z ∧ z < y) →
        b.startAddr ≤ z ∧ z < b.endAddr) → Pieces a x y [b] := by
    intro b hb h1 h2 h3 h4 hc
    refine ⟨spaced_single hb, fun c hcm => ?_, fun c hcm => ?_, fun z hz1 hz2 hz3 => ?_, ?_,
      .inl (le_refl 1)⟩
    · rw [mem_singleton.mp hcm]
      exact ⟨h1, h2⟩
    · rw [mem_singleton.mp hcm]
      exact ⟨h3, h4⟩
    · exact ⟨b, mem_cons_self, hc z hz1 hz2 hz3⟩
    · simp only [map_cons, map_nil, sum_cons, sum_nil, VmArea.size]
      omega
  unfold remains
  split
  · refine ⟨spaced_nil, fun _ hb => absurd hb not_mem_nil,
      fun _ hb => absurd hb not_mem_nil, fun z h1 h2 h3 => ?_, zero_le _,
      .inl (zero_le 1)⟩
    exact absurd ⟨by omega, by omega⟩ h3
  split
  · refine hone _ ?_ ?_ (le_refl _) hy hea fun z h1 h2 h3 => ?_
    all_goals dsimp only
    all_goals omega
  split
  · refine hone _ ?_ (le_refl _) ?_ hsa hx fun z h1 h2 h3 => ?_
    all_goals dsimp only
    all_goals omega
  -- a hole: the beginning and the end are two areas now
  obtain ⟨r, rfl, hr1, hr2⟩ := hright (by omega) (by omega)
  have hmem : ∀ b ∈ { a with endAddr := x } :: (some r).toList,
      b = { a with endAddr := x } ∨ b = r := by
    intro b hb
    simpa using hb
  refine ⟨(spaced_single (by omega)).cons ?_ fun b hb => ?_, fun b hb => ?_, fun b hb => ?_,
    fun z h1 h2 h3 => ?_, ?_, .inr ⟨rfl, by omega, by omega⟩⟩
  · dsimp only
    omega
  · rw [mem_singleton.mp hb]
    dsimp only
    omega
  · rcases hmem b hb with rfl | rfl
    · dsimp only
      omega
    · omega
  · rcases hmem b hb with rfl | rfl
    · exact ⟨hsa, hx⟩
    · exact ⟨by rw [hr1]; exact hy, by rw [hr2]; exact hea⟩
  · by_cases hz : z < x
    · exact ⟨_, mem_cons_self, h1, hz⟩
    · exact ⟨r, mem_cons_of_mem _ (mem_singleton.mpr rfl), by omega, by omega⟩
  · simp only [Option.toList_some, map_cons, map_nil, sum_cons, sum_nil, VmArea.size]
    omega

/-- **A cut within the limits**: a hole needs one dynamic area more. -/
theorem Areas.cut {r : List VmArea} (h : Areas (l₁ ++ a :: l₂)) (hd : a.isDynamic = true)
    (hr : Pieces a x y r) (hfew : r.length = 2 → dynamicCount (l₁ ++ a :: l₂) < maxDynamicVmas) :
    Areas (l₁ ++ (r ++ l₂)) := by
  obtain ⟨hda, hdb⟩ := isDynamic_iff.mp hd
  have hdyn : ∀ b ∈ r, b.isDynamic = true := by
    intro b hb
    obtain ⟨h1, h2⟩ := hr.inside b hb
    exact isDynamic_iff.mpr ⟨by omega, by omega⟩
  have hfilter : r.filter VmArea.isDynamic = r := filter_eq_self.mpr hdyn
  have hf := h.few
  have hs := h.small
  have hb := hr.bytes
  refine ⟨h.spaced.replace hr.spaced hr.inside, fun b hb => ?_, ?_, ?_⟩
  · rcases mem_append.mp hb with hb | hb
    · exact h.ok b (mem_append_left _ hb)
    rcases mem_append.mp hb with hb | hb
    · exact ⟨(hr.aligned b hb).1, (hr.aligned b hb).2, .inl (hdyn b hb)⟩
    · exact h.ok b (mem_append_right _ (mem_cons_of_mem _ hb))
  · rw [dynamicCount_append, dynamicCount_cons, if_pos hd] at hf hfew
    rw [dynamicCount_append, dynamicCount_append, show dynamicCount r = r.length by
      rw [dynamicCount, hfilter]]
    rcases hr.length with hlen | ⟨hlen, _⟩
    · omega
    · omega
  · rw [dynamicBytes_append, dynamicBytes_cons, if_pos hd] at hs
    rw [dynamicBytes_append, dynamicBytes_append, show dynamicBytes r = (r.map VmArea.size).sum by
      rw [dynamicBytes, hfilter]]
    omega

end ZephyrOS.Vma
