import ZephyrOS.Fs.Fat12
import ZephyrOS.Lib.Outcome

/-!
# Names and the root directory

The write path encodes a name strictly and the read path loosely; on a name the
first accepts they agree. A search over the root directory finds the first visible
entry with the name, and depends on nothing but the entries up to it, so replacing
one entry moves no other file.
-/

namespace ZephyrOS.Fat12

open Lib List Nat

/-! ### Names -/

theorem upper_ne_zero {c : UInt8} (h : c ≠ 0) : upper c ≠ 0 := by
  unfold upper
  split
  · rename_i hc
    intro h0
    have h1 := UInt8.le_iff_toNat_le.mp hc.1
    have h2 := congrArg UInt8.toNat h0
    rw [UInt8.toNat_sub_of_le _ _ (UInt8.le_iff_toNat_le.mpr (le_trans (by decide) h1))] at h2
    simp at h1 h2
    omega
  · exact h

variable {n i : Nat} {root : Nat → UInt8} {name text : List UInt8} {dot : Bool} {bytes : Nat → UInt8}
  {filename : List UInt8} {attributes : UInt8} {r : Option Nat} {index : Nat} {name' : List UInt8}


theorem padTo_length (h : text.length ≤ n) : (padTo n text).length = n := by
  unfold padTo
  rw [length_append, length_replicate]
  omega

theorem padTo_ne_zero (h : ∀ c ∈ text, c ≠ 0) : ∀ c ∈ padTo n text, c ≠ 0 := by
  intro c hc
  rcases mem_append.mp hc with hc | hc
  · exact h c hc
  · rw [eq_of_mem_replicate hc]; decide

theorem scanName_spec : ∀ (room : Nat) (text : List UInt8),
    (scanName dot room text).1.length ≤ room ∧ ∀ c ∈ (scanName dot room text).1, c ≠ 0
  | 0, text => ⟨le_refl _, by simp [scanName]⟩
  | _ + 1, [] => ⟨zero_le _, by simp [scanName]⟩
  | room + 1, c :: rest => by
    rw [scanName]
    split
    · exact ⟨zero_le _, by simp⟩
    rename_i hc
    obtain ⟨hlen, hne⟩ := scanName_spec room rest
    exact ⟨succ_le_succ hlen, forall_mem_cons.mpr ⟨upper_ne_zero fun h0 => hc (.inl h0), hne⟩⟩

theorem scanExtension_spec : (scanExtension text).length ≤ 3 ∧ ∀ c ∈ scanExtension text, c ≠ 0 := by
  cases text with
  | nil => simp [scanExtension]
  | cons c rest =>
    rw [scanExtension]
    split
    · exact scanName_spec 3 rest
    · simp

/-- A name to look for is eleven characters, none of them zero. -/
theorem entryName_spec : (entryName filename).length = 11 ∧ ∀ c ∈ entryName filename, c ≠ 0 := by
  unfold entryName
  obtain ⟨hlen, hne⟩ := scanName_spec 8 filename
  obtain ⟨hlen', hne'⟩ := scanExtension_spec
  refine ⟨?_, fun c hc => ?_⟩
  · rw [length_append, padTo_length hlen, padTo_length hlen']
  · rcases mem_append.mp hc with hc | hc
    · exact padTo_ne_zero hne c hc
    · exact padTo_ne_zero hne' c hc

theorem encodeBase_scan : ∀ (room : Nat) (text base rest : List UInt8),
    encodeBase room text = .ok (base, rest) →
    (scanName true room text).1 = base ∧ (∀ c ∈ base, nameChar c = true)
      ∧ (rest ≠ [] → (scanName true room text).2 = rest ∧ rest.head? = some 46)
  | _, [], base, rest, h => by
    cases h
    unfold scanName
    split <;> first | rfl | simp_all
  | room, c :: text, base, rest, h => by
    rw [encodeBase] at h
    split at h
    · rename_i h0
      cases h
      refine ⟨?_, by simp, fun hc => absurd rfl hc⟩
      cases room with
      | zero => rfl
      | succ n => rw [scanName, if_pos (.inl h0)]
    · rename_i h0
      split at h
      · rename_i hdot
        cases h
        subst hdot
        cases room with
        | zero => exact ⟨rfl, by simp, fun _ => ⟨rfl, rfl⟩⟩
        | succ n =>
          exact ⟨rfl, by simp, fun _ => ⟨rfl, rfl⟩⟩
      · rename_i hdot
        obtain ⟨hroom, h⟩ := ite_error_eq_ok.mp h
        obtain ⟨n, rfl⟩ := exists_eq_succ_of_ne_zero fun hc => hroom (.inl hc)
        split at h
        · cases h
        rename_i text' rest' heq
        cases h
        obtain ⟨h1, h2, h3⟩ := encodeBase_scan n text _ _ heq
        rw [scanName, if_neg (by simp [h0, hdot])]
        exact ⟨by rw [h1], forall_mem_cons.mpr
          ⟨Bool.not_eq_false _ ▸ fun hc => hroom (.inr hc), h2⟩, h3⟩

theorem encodeExtension_scan : ∀ (room : Nat) (text ext : List UInt8),
    encodeExtension room text = .ok ext → (scanName false room text).1 = ext
  | room, [], ext, h => by
    cases h
    unfold scanName
    split <;> first | rfl | simp_all
  | room, c :: text, ext, h => by
    rw [encodeExtension] at h
    split at h
    · rename_i h0
      cases h
      cases room with
      | zero => rfl
      | succ n => rw [scanName, if_pos (.inl h0)]
    rename_i h0
    obtain ⟨hroom, h⟩ := ite_error_eq_ok.mp h
    obtain ⟨n, rfl⟩ := exists_eq_succ_of_ne_zero fun hc => hroom (.inl hc)
    split at h
    · cases h
    · rename_i text' heq
      cases h
      rw [scanName, if_neg (by simp [h0]), encodeExtension_scan n text _ heq]

section Encode

variable {filename encoded : List UInt8}

section

variable (h : fat12EncodeRootName filename = .ok encoded)
include h

/-- A name that is accepted has a base and, behind a dot, an extension. -/
theorem encodeRootName_ok :
    ∃ base rest ext, encodeBase 8 filename = .ok (base, rest) ∧ base ≠ [] ∧ rest ≠ [] ∧
      encodeExtension 3 rest.tail = .ok ext ∧ encoded = padTo 8 base ++ padTo 3 ext := by
  obtain ⟨_, h⟩ := ite_error_eq_ok.mp h
  split at h
  · cases h
  rename_i base rest hbase
  obtain ⟨hne, h⟩ := ite_error_eq_ok.mp h
  rw [not_or] at hne
  split at h
  · cases h
  rename_i ext hext
  obtain ⟨_, h⟩ := ite_error_eq_ok.mp h
  exact ⟨base, rest, ext, hbase, hne.1, hne.2, hext, (Except.ok.inj h).symm⟩

/-- What the write path stores is what the read path looks for. -/
theorem entryName_of_encode :
    entryName filename = encoded := by
  obtain ⟨base, rest, ext, hbase, _, hne, hext, rfl⟩ := encodeRootName_ok h
  obtain ⟨h1, _, h3⟩ := encodeBase_scan 8 filename base rest hbase
  obtain ⟨hrest, hdot⟩ := h3 hne
  unfold entryName
  rw [h1, hrest]
  cases rest with
  | nil => exact absurd rfl hne
  | cons c rest =>
    rw [head?_cons, Option.some.injEq] at hdot
    rw [scanExtension, if_pos hdot, encodeExtension_scan 3 rest ext hext]

/-- The first character of an encoded name marks neither a free nor a deleted entry. -/
theorem encode_first :
    encoded.getD 0 0 ≠ 0 ∧ encoded.getD 0 0 ≠ 0xE5 := by
  obtain ⟨base, rest, ext, hbase, hne, _, _, rfl⟩ := encodeRootName_ok h
  obtain ⟨_, h2, _⟩ := encodeBase_scan 8 filename base rest hbase
  cases base with
  | nil => exact absurd rfl hne
  | cons c base =>
    have hc := h2 c mem_cons_self
    refine ⟨?_, ?_⟩ <;> rintro rfl <;> cases hc

end

end Encode

/-! ### Searching the root directory -/

/-- The name of entry `i` is `name`. -/
def Named (root : Nat → UInt8) (name : List UInt8) (i : Nat) : Prop :=
  ∀ k, k < 11 → entryByte root i k = name.getD k 0

/-- An entry a search can stop at: not deleted, not a label, and named `name`. -/
def Hit (root : Nat → UInt8) (name : List UInt8) (i : Nat) : Prop :=
  entryByte root i 0 ≠ 0xE5 ∧ entryAttributes root i &&& 0x08 = 0 ∧ Named root name i

/-- The entries from `index` to `i` are all before the end of the directory. -/
def InUse (root : Nat → UInt8) (index i : Nat) : Prop :=
  ∀ j, index ≤ j → j ≤ i → entryByte root j 0 ≠ 0

theorem strncmpEq_iff {a b : Nat → UInt8} : ∀ {n i : Nat}, (∀ k, i ≤ k → k < i + n → b k ≠ 0) →
    (strncmpEq a b i n = true ↔ ∀ k, i ≤ k → k < i + n → a k = b k)
  | 0, i, _ => by
    refine ⟨fun _ k h1 h2 => ?_, fun _ => rfl⟩
    omega
  | n + 1, i, hb => by
    rw [strncmpEq]
    by_cases he : a i = b i
    · rw [if_neg (fun hc => hc he), if_neg (by rw [he]; exact hb i (le_refl _) (by omega)),
        strncmpEq_iff fun k h1 h2 => hb k (by omega) (by omega)]
      refine ⟨fun h k h1 h2 => ?_, fun h k h1 h2 => h k (by omega) (by omega)⟩
      rcases eq_or_lt_of_le h1 with rfl | h1
      · exact he
      · exact h k h1 (by omega)
    · rw [if_pos he]
      refine ⟨nofun, fun h => absurd (h i (le_refl _) (by omega)) he⟩

/-- What a search returns: the first hit before the end of the directory. -/
def Found (root : Nat → UInt8) (name : List UInt8) (index n : Nat) : Option Nat → Prop
  | none => ∀ i, index ≤ i → i < index + n → InUse root index i → ¬ Hit root name i
  | some i => index ≤ i ∧ i < index + n ∧ InUse root index i ∧ Hit root name i
      ∧ ∀ j, index ≤ j → j < i → ¬ Hit root name j

theorem Found.skip (h : Found root name (index + 1) n r) (h0 : entryByte root index 0 ≠ 0)
    (hmiss : ¬ Hit root name index) : Found root name index (n + 1) r := by
  cases r with
  | none =>
    intro i h1 h2 huse
    rcases eq_or_lt_of_le h1 with rfl | h1
    · exact hmiss
    · exact h i h1 (by omega) fun j hj1 hj2 => huse j (by omega) hj2
  | some i =>
    obtain ⟨h1, h2, huse, hhit, hfirst⟩ := h
    refine ⟨by omega, by omega, fun j hj1 hj2 => ?_, hhit, fun j hj1 hj2 => ?_⟩
    · rcases eq_or_lt_of_le hj1 with rfl | hj1
      · exact h0
      · exact huse j hj1 hj2
    · rcases eq_or_lt_of_le hj1 with rfl | hj1
      · exact hmiss
      · exact hfirst j hj1 hj2

theorem findFrom_found
    (hname : ∀ k, k < 11 → name.getD k 0 ≠ 0) :
    ∀ (n index : Nat), Found root name index n (findFrom root name index n)
  | 0, index => fun i h1 h2 => by omega
  | n + 1, index => by
    rw [findFrom]
    split
    · rename_i h0
      -- an entry that begins with 0 ends the directory
      exact fun i h1 _ huse => absurd h0 (huse index (le_refl _) h1)
    rename_i h0
    have hcmp := strncmpEq_iff (a := entryByte root index)
      (n := 11) fun k _ hk => hname k (by omega)
    split
    · rename_i hskip
      refine (findFrom_found hname n (index + 1)).skip h0 ?_
      rintro ⟨h1, h2, _⟩
      rcases hskip with hs | hs
      · exact h1 hs
      · exact hs h2
    rename_i hskip
    split
    · rename_i heq
      refine ⟨le_refl _, by omega, ?_, ⟨?_, ?_, ?_⟩, ?_⟩
      · intro j h1 h2
        rw [le_antisymm h2 h1]; exact h0
      · exact fun hc => hskip (.inl hc)
      · exact Decidable.byContradiction fun hc => hskip (.inr hc)
      · exact fun k hk => hcmp.mp heq k (zero_le _) (by omega)
      · omega
    · rename_i heq
      refine (findFrom_found hname n (index + 1)).skip h0 fun hhit => heq ?_
      exact hcmp.mpr fun k _ hk => hhit.2.2 k (by omega)

/-- There is only one right answer. -/
theorem Found.unique
    (h : Found root name index n r) (hi : Found root name index n (some i)) : r = some i := by
  obtain ⟨h1, h2, huse, hhit, hfirst⟩ := hi
  cases r with
  | none => exact absurd hhit (h i h1 h2 huse)
  | some j =>
    obtain ⟨h1', h2', huse', hhit', hfirst'⟩ := h
    rcases lt_trichotomy i j with hlt | rfl | hgt
    · exact absurd hhit (hfirst' i h1 hlt)
    · rfl
    · exact absurd hhit' (hfirst j h1' hgt)

theorem name_getD_ne_zero (hlen : name.length = 11)
    (hne : ∀ c ∈ name, c ≠ 0) : ∀ k, k < 11 → name.getD k 0 ≠ 0 := by
  intro k hk
  rw [getD_eq_getElem _ _ (by omega)]
  exact hne _ (getElem_mem _)

theorem findEntry_found (fs : Fs) (filename : List UInt8) :
    Found fs.rootDir (entryName filename) 0 fs.bpb.rootEntries (fat12FindEntry fs filename) :=
  findFrom_found (name_getD_ne_zero entryName_spec.1 entryName_spec.2) _ _

/-- Two names of one entry are one name. -/
theorem Named.unique (h : Named root name i)
    (h' : Named root name' i) (hlen : name.length = 11) (hlen' : name'.length = 11) :
    name = name' := by
  apply ext_getElem (hlen.trans hlen'.symm)
  intro k hk hk'
  have h1 := h k (by omega)
  rw [h' k (by omega), getD_eq_getElem _ _ hk', getD_eq_getElem _ _ hk] at h1
  exact h1.symm

/-! ### Replacing an entry -/

theorem entryByte_setEntry {k : Nat} (hk : k < 32) :
    entryByte (setEntry root index bytes) i k
      = if i = index then bytes k else entryByte root i k := by
  unfold entryByte setEntry
  rw [show (32 * i + k) / 32 = i by omega, show (32 * i + k) % 32 = k by omega]

/-- The entry the write path picks for `name`: the one that has it, or else the first
that is free. -/
structure Slot (root : Nat → UInt8) (name : List UInt8) (entries index : Nat) (existing : Bool) :
    Prop where
  lt : index < entries
  before : ∀ j, j < index → entryByte root j 0 ≠ 0
  fresh : ∀ j, j < index → ¬ Hit root name j
  found : existing = true → entryByte root index 0 ≠ 0 ∧ Hit root name index
  free : existing = false → entryByte root index 0 = 0 ∨ entryByte root index 0 = 0xE5

theorem slot_of_found (h : Found root name 0 n (some i)) : Slot root name n i true := by
  obtain ⟨h1, h2, huse, hhit, hfirst⟩ := h
  exact ⟨by omega, fun j hj => huse j (zero_le _) (le_of_lt hj),
    fun j hj => hfirst j (zero_le _) hj, fun _ => ⟨huse i h1 (le_refl _), hhit⟩,
    nofun⟩

theorem findSlotFrom_spec : ∀ {n index i : Nat},
    findSlotFrom root index n = some i →
    i < index + n ∧ (entryByte root i 0 = 0 ∨ entryByte root i 0 = 0xE5)
      ∧ ∀ j, index ≤ j → j < i → entryByte root j 0 ≠ 0
  | 0, _, _, h => absurd h (by simp [findSlotFrom])
  | n + 1, index, i, h => by
    rw [findSlotFrom] at h
    split at h
    · rename_i hfree
      cases h
      exact ⟨by omega, hfree, fun j h1 h2 => by omega⟩
    rename_i hfree
    obtain ⟨h1, h2, h3⟩ := findSlotFrom_spec h
    refine ⟨by omega, h2, fun j hj1 hj2 => ?_⟩
    rcases eq_or_lt_of_le hj1 with rfl | hj1
    · exact fun hc => hfree (.inl hc)
    · exact h3 j hj1 hj2

theorem slot_of_free (hnone : Found root name 0 n none)
    (h : findSlotFrom root 0 n = some i) : Slot root name n i false := by
  obtain ⟨h1, h2, h3⟩ := findSlotFrom_spec h
  refine ⟨by omega, fun j hj => h3 j (zero_le _) hj, fun j hj => ?_, nofun, fun _ => h2⟩
  exact hnone j (zero_le _) (by omega) fun m _ hm => h3 m (zero_le _) (by omega)

section Replace

variable {bytes : Nat → UInt8} {entries index : Nat} {existing : Bool}

/-- What a search looks at are the bytes of the entry. -/
theorem hit_iff {f : Nat → UInt8} (hf : ∀ k, k < 32 → entryByte root i k = f k) :
    Hit root name i ↔
      f 0 ≠ 0xE5 ∧ f 11 &&& 0x08 = 0 ∧ ∀ k, k < 11 → f k = name.getD k 0 := by
  unfold Hit entryAttributes Named
  rw [hf 0 (by decide), hf 11 (by decide)]
  refine and_congr_right fun _ => and_congr_right fun _ => forall₂_congr fun k hk => ?_
  rw [hf k (by omega)]

theorem hit_setEntry_self : Hit (setEntry root index bytes) name index ↔
    bytes 0 ≠ 0xE5 ∧ bytes 11 &&& 0x08 = 0 ∧ ∀ k, k < 11 → bytes k = name.getD k 0 :=
  hit_iff fun k hk => by rw [entryByte_setEntry hk, if_pos rfl]

theorem hit_setEntry_ne {j : Nat} (hj : j ≠ index) :
    Hit (setEntry root index bytes) name j ↔ Hit root name j :=
  hit_iff fun k hk => by rw [entryByte_setEntry hk, if_neg hj]

theorem inUse_setEntry (h0 : bytes 0 ≠ 0)
    (h : ∀ j, j ≤ i → j ≠ index → entryByte root j 0 ≠ 0) : InUse (setEntry root index bytes) 0 i := by
  intro j _ hj
  rw [entryByte_setEntry (by decide)]
  split
  · exact h0
  · rename_i hne
    exact h j hj hne

section

variable (h : Slot root name entries index existing) (hname : ∀ k, k < 11 → bytes k = name.getD k 0)
  (h0 : bytes 0 ≠ 0)
include h hname h0

/-- The name now finds the new entry. -/
theorem Slot.found_self (hE5 : bytes 0 ≠ 0xE5)
    (hattr : bytes 11 &&& 0x08 = 0) :
    Found (setEntry root index bytes) name 0 entries (some index) := by
  refine ⟨zero_le _, by have := h.lt; omega, ?_, hit_setEntry_self.mpr ⟨hE5, hattr, hname⟩,
    fun j _ hj hhit => h.fresh j hj ((hit_setEntry_ne (by omega)).mp hhit)⟩
  exact inUse_setEntry h0 fun j hj hne => h.before j (by omega)

/-- A file under another name is found where it was, and not in the replaced entry. -/
theorem Slot.found_other (hlen : name.length = 11) (hlen' : name'.length = 11)
    (hne : name' ≠ name) (hi : Found root name' 0 entries (some i)) :
    i ≠ index ∧ Found (setEntry root index bytes) name' 0 entries (some i) := by
  obtain ⟨h1, h2, huse, hhit, hfirst⟩ := hi
  have hii : i ≠ index := by
    rintro rfl
    -- the entry that is replaced has the other name, or was free
    cases existing with
    | true => exact hne (hhit.2.2.unique (h.found rfl).2.2.2 hlen' hlen)
    | false =>
      rcases h.free rfl with hz | hz
      · exact huse i h1 (le_refl _) hz
      · exact hhit.1 hz
  refine ⟨hii, h1, h2, inUse_setEntry h0 fun j hj _ => huse j (zero_le _) hj,
    (hit_setEntry_ne hii).mpr hhit, fun j hj1 hj2 hj => ?_⟩
  rcases Decidable.em (j = index) with rfl | hji
  · refine hne (hj.2.2.unique (fun k hk => ?_) hlen' hlen)
    rw [entryByte_setEntry (by omega), if_pos rfl]; exact hname k hk
  · exact hfirst j hj1 hj2 ((hit_setEntry_ne hji).mp hj)

end

end Replace

/-- The fields of an entry other than the replaced one. -/
theorem entry_fields_setEntry (root : Nat → UInt8) (bytes : Nat → UInt8) (h : i ≠ index) :
    entryClusterLow (setEntry root index bytes) i = entryClusterLow root i
      ∧ entryFileSize (setEntry root index bytes) i = entryFileSize root i := by
  have hk : ∀ k, k < 32 → setEntry root index bytes (32 * i + k) = root (32 * i + k) := by
    intro k hk
    unfold setEntry
    rw [if_neg (by omega)]
  unfold entryClusterLow entryFileSize read32 read16
  rw [hk 26 (by decide), hk 27 (by decide), hk 28 (by decide), add_assoc,
    hk 29 (by decide), add_assoc, hk 30 (by decide), hk 31 (by decide)]
  exact ⟨rfl, rfl⟩

/-- The fields of the new entry. -/
theorem newEntry_fields {cluster size : Nat} (hc : cluster < 65536) (hs : size < 4294967296) :
    entryClusterLow (setEntry root index (newEntry name attributes cluster size)) index = cluster
      ∧ entryFileSize (setEntry root index (newEntry name attributes cluster size)) index
        = size := by
  have hk : ∀ k, k < 32 → setEntry root index (newEntry name attributes cluster size)
      (32 * index + k) = newEntry name attributes cluster size k := by
    intro k hk
    unfold setEntry
    rw [if_pos (by omega), show (32 * index + k) % 32 = k by omega]
  exact ⟨read16_of_bytes hc (hk 26 (by decide)) (hk 27 (by decide)),
    read32_of_bytes hs (hk 28 (by decide)) (hk 29 (by decide)) (hk 30 (by decide))
      (hk 31 (by decide))⟩

end ZephyrOS.Fat12
