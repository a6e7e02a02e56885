import ZephyrOS.Fs.StorageWalk
import ZephyrOS.Lib.Records
import ZephyrOS.Lib.Unicode

/-!
# The short name of a new entry

`storage_generate_alias` takes the name itself if it fits the 8.3 form and no entry of the
directory has that short name, and otherwise the letters and digits of the name with a number.
Either way the eleven bytes are a short name in the normal form of `storage_name_to_fat`, so
they survive the trip through text by which the entries of the directory are compared.

The first byte is looked at by nobody. A name that starts with the byte `0xE5` and fits is taken
as it is, and its entry reads as a deleted one.
-/

namespace ZephyrOS.Storage

open Lib List Except

/-! ### The 8.3 form -/

/-- The eleven bytes of a base and an extension, filled up with blanks. -/
def fatName (base extension : List UInt8) : List UInt8 :=
  base ++ List.replicate (8 - base.length) 32 ++ extension
    ++ List.replicate (3 - extension.length) 32

/-- The loop of `storage_name_to_fat`, with what it has put into the two parts so far. -/
def nameToFatLoop : List UInt8 → Bool → List UInt8 → List UInt8 → Except Err (List UInt8)
  | [], _, base, extension => if base = [] then .error .invalid else .ok (fatName base extension)
  | value :: name, inExtension, base, extension =>
    if value = 46 then
      if inExtension ∨ base = [] then .error .invalid
      else nameToFatLoop name true base extension
    else if value = 47 ∨ value = 92 ∨ value = 32 then .error .invalid
    else if inExtension = false then
      if 8 ≤ base.length then .error .overflow
      else nameToFatLoop name inExtension (base ++ [upper value]) extension
    else
      if 3 ≤ extension.length then .error .overflow
      else nameToFatLoop name inExtension base (extension ++ [upper value])

/-- `storage_name_to_fat`. -/
def nameToFat (name : List UInt8) : Except Err (List UInt8) :=
  if name = [] then .error .invalid else nameToFatLoop name false [] []

/-! ### Generating -/

section

variable (read : Nat → Except Err Sector) (vol : Volume) (mnt : Mount) (dir : Dir)

/-- `storage_alias_visitor`. -/
def aliasVisitor (candidate : List UInt8) (e : LongEntry) (found : Bool) : Except Err Bool :=
  match nameToFat e.shortName with
  | .ok current => .ok (if current = candidate then true else found)
  | .error _ => .ok found

/-- `storage_alias_is_used`: `-1` is a walk that failed. -/
def aliasIsUsed (candidate : List UInt8) : Int :=
  match walkDirectoryLong read vol mnt dir (aliasVisitor candidate) false with
  | .ok found => if found then 1 else 0
  | .error _ => -1

/-- A character as it goes into a numbered short name: letters and digits only. -/
def aliasChar (c : UInt8) : Option UInt8 :=
  let value := upper c
  if 65 ≤ value ∧ value ≤ 90 then some value
  else if 48 ≤ value ∧ value ≤ 57 then some value
  else none

/-- What stands before the last dot. -/
def beforeDot (name : List UInt8) : List UInt8 :=
  if 46 ∈ name then (name.reverse.dropWhile (· ≠ 46)).tail.reverse else name

/-- What stands after the last dot. -/
def afterDot (name : List UInt8) : List UInt8 :=
  if 46 ∈ name then (name.reverse.takeWhile (· ≠ 46)).reverse else []

/-- The stem of a numbered short name; `FILE` if the name has no letter or digit. -/
def aliasStem (name : List UInt8) : List UInt8 :=
  let stem := ((beforeDot name).filterMap aliasChar).take 63
  if stem = [] then [70, 73, 76, 69] else stem

/-- The extension of a numbered short name. -/
def aliasExtension (name : List UInt8) : List UInt8 := ((afterDot name).filterMap aliasChar).take 3

/-- The decimal digits of a number, the lowest first; there is room for six. -/
def digitsLoop : Nat → Nat → List UInt8
  | 0, _ => []
  | room + 1, value =>
    UInt8.ofNat (48 + value % 10) :: if value / 10 = 0 then [] else digitsLoop room (value / 10)

/-- A tilde and the number. -/
def aliasSuffix (number : Nat) : List UInt8 := 126 :: (digitsLoop 6 number).reverse

/-- The candidate with a number. -/
def numbered (name : List UInt8) (number : Nat) : List UInt8 :=
  let suffix := aliasSuffix number
  fatName ((aliasStem name).take (8 - suffix.length) ++ suffix) (aliasExtension name)

/-- The loop of `storage_generate_alias` over the numbers from `number` on. -/
def aliasLoop (name : List UInt8) : Nat → Nat → Except Err (List UInt8)
  | 0, _ => .error .overflow
  | rounds + 1, number =>
    if aliasIsUsed read vol mnt dir (numbered name number) = 0 then .ok (numbered name number)
    else aliasLoop name rounds (number + 1)

/-- `storage_generate_alias`. -/
def generateAlias (name : List UInt8) : Except Err (List UInt8) :=
  match nameToFat name with
  | .ok candidate =>
    if aliasIsUsed read vol mnt dir candidate = 0 then .ok candidate
    else aliasLoop read vol mnt dir name 9999 1
  | .error _ => aliasLoop read vol mnt dir name 9999 1

end

/-! ### Short names in normal form -/

/-- A character that `storage_name_to_fat` leaves as it is. -/
def Plain (c : UInt8) : Prop :=
  c ≠ 0 ∧ c ≠ 32 ∧ c ≠ 46 ∧ c ≠ 47 ∧ c ≠ 92 ∧ upper c = c

instance (c : UInt8) : Decidable (Plain c) := inferInstanceAs (Decidable (_ ∧ _))

/-- What holds of every byte value is checked on the 256 of them. -/
theorem forall_byte {P : UInt8 → Prop} (h : ∀ n : Fin 256, P (UInt8.ofNat n)) (c : UInt8) : P c := by
  simpa using h ⟨c.toNat, c.toNat_lt⟩

theorem plain_upper : ∀ c : UInt8, c ≠ 0 → c ≠ 46 → ¬(c = 47 ∨ c = 92 ∨ c = 32) → Plain (upper c) :=
  forall_byte (by decide +kernel)

theorem plain_aliasChar : ∀ c : UInt8, ∀ d ∈ aliasChar c, Plain d ∧ d < 128 := by
  have hall : ∀ c : UInt8, (aliasChar c).all (fun d => decide (Plain d ∧ d < 128)) = true :=
    forall_byte (by decide +kernel)
  intro c d hd
  have hc := hall c
  rw [hd] at hc
  exact of_decide_eq_true hc

theorem upper_eq_deleted : ∀ c : UInt8, upper c = 0xE5 ↔ c = 0xE5 :=
  forall_byte (by decide +kernel)

/-- The parts of a short name in normal form. -/
structure Normal (base extension : List UInt8) : Prop where
  base_ne : base ≠ []
  base_le : base.length ≤ 8
  extension_le : extension.length ≤ 3
  base_plain : ∀ c ∈ base, Plain c
  extension_plain : ∀ c ∈ extension, Plain c

/-- A short name as text. -/
def nameText (base extension : List UInt8) : List UInt8 :=
  base ++ if extension = [] then [] else 46 :: extension

variable {blanks number : Nat} {part base extension name result : List UInt8}

/-- A part of the field: the characters up to the blanks. -/
theorem takeWhile_part (h : ∀ c ∈ part, Plain c) :
    ((part ++ List.replicate blanks 32).takeWhile (· != 32)).filter (· != 0) = part := by
  rw [takeWhile_append_of_pos (fun c hc => by simpa using (h c hc).2.1)]
  have hblank : (replicate blanks (32 : UInt8)).takeWhile (· != 32) = [] := by
    cases blanks <;> simp [replicate_succ]
  rw [hblank, append_nil, filter_eq_self]
  intro c hc
  simpa using (h c hc).1

/-- The two parts, each in its field. -/
theorem fatName_fields (hbase : base.length ≤ 8) (hext : extension.length ≤ 3) :
    slice (bufferOf (fatName base extension)) 0 8 = base ++ List.replicate (8 - base.length) 32
      ∧ slice (bufferOf (fatName base extension)) 8 3
        = extension ++ List.replicate (3 - extension.length) 32 := by
  have hlen : (base ++ replicate (8 - base.length) 32).length = 8 := by
    rw [length_append, length_replicate]; omega
  have hfields := holds_bufferOf (fatName base extension)
  nth_rewrite 2 [fatName] at hfields
  rw [append_assoc, holds_append, hlen] at hfields
  refine ⟨hfields.1.slice hlen, hfields.2.slice ?_⟩
  rw [length_append, length_replicate]; omega

theorem shortText_fatName (h : Normal base extension) :
    shortText (bufferOf (fatName base extension)) = nameText base extension := by
  obtain ⟨hfirst, hsecond⟩ := fatName_fields h.base_le h.extension_le
  have hdot : bufferOf (fatName base extension) 8 = 32 ↔ extension = [] := by
    have hhead : bufferOf (fatName base extension) 8
        = (extension ++ replicate (3 - extension.length) 32).headD 0 := by
      rw [← hsecond]; rfl
    rw [hhead]
    cases extension with
    | nil => simp
    | cons c extension => simpa using (h.extension_plain c mem_cons_self).2.1
  unfold slice at hfirst hsecond
  unfold shortText nameText
  dsimp only
  rw [hfirst, hsecond, takeWhile_part h.base_plain, takeWhile_part h.extension_plain]
  simp only [hdot]

/-- Characters that are left as they are go to the end of the base. -/
theorem nameToFatLoop_base {rest : List UInt8} (h : ∀ c ∈ part, Plain c)
    (hlen : base.length + part.length ≤ 8) : nameToFatLoop (part ++ rest) false base extension
      = nameToFatLoop rest false (base ++ part) extension := by
  induction part generalizing base with
  | nil => rw [append_nil]; rfl
  | cons c part ih =>
    obtain ⟨-, h32, h46, h47, h92, hup⟩ := h c mem_cons_self
    rw [length_cons] at hlen
    rw [cons_append, nameToFatLoop, if_neg h46, if_neg (by simp [h32, h47, h92]), if_pos rfl,
      if_neg (by omega), hup, ih (fun d hd => h d (mem_cons_of_mem _ hd)) (by simp; omega)]
    simp

/-- After the dot they go to the end of the extension. -/
theorem nameToFatLoop_extension (h : ∀ c ∈ part, Plain c)
    (hlen : extension.length + part.length ≤ 3) (hbase : base ≠ []) :
    nameToFatLoop part true base extension = .ok (fatName base (extension ++ part)) := by
  induction part generalizing extension with
  | nil => rw [nameToFatLoop, if_neg hbase, append_nil]
  | cons c part ih =>
    obtain ⟨-, h32, h46, h47, h92, hup⟩ := h c mem_cons_self
    rw [length_cons] at hlen
    rw [nameToFatLoop, if_neg h46, if_neg (by simp [h32, h47, h92]), if_neg (by simp),
      if_neg (by omega), hup, ih (fun d hd => h d (mem_cons_of_mem _ hd)) (by simp; omega)]
    simp

/-- The text of a short name in normal form gives back its bytes. -/
theorem nameToFat_nameText (h : Normal base extension) :
    nameToFat (nameText base extension) = .ok (fatName base extension) := by
  have hne : nameText base extension ≠ [] := by
    intro hnil
    exact h.base_ne (append_eq_nil_iff.mp hnil).1
  rw [nameToFat, if_neg hne, nameText,
    nameToFatLoop_base h.base_plain (by simpa using h.base_le), nil_append]
  by_cases hext : extension = []
  · rw [if_pos hext, nameToFatLoop, if_neg h.base_ne, hext]
  · rw [if_neg hext, nameToFatLoop, if_pos rfl, if_neg (by simp [h.base_ne]),
      nameToFatLoop_extension h.extension_plain (by simpa using h.extension_le) h.base_ne,
      nil_append]

/-- What the loop accepts is in normal form, and starts with what was there. -/
theorem nameToFatLoop_normal {inExtension : Bool}
    (hnul : ∀ c ∈ name, c ≠ 0) (hbase : base.length ≤ 8) (hext : extension.length ≤ 3)
    (hplain : ∀ c ∈ base, Plain c) (hplain' : ∀ c ∈ extension, Plain c)
    (h : nameToFatLoop name inExtension base extension = .ok result) :
    ∃ base' extension', Normal base' extension' ∧ result = fatName base' extension'
      ∧ base <+: base' := by
  induction name generalizing inExtension base extension with
  | nil =>
    obtain ⟨hne, h⟩ := ite_error_eq_ok.mp h
    exact ⟨base, extension, ⟨hne, hbase, hext, hplain, hplain'⟩, (ok.inj h).symm, prefix_rfl⟩
  | cons c name ih =>
    have hrest : ∀ d ∈ name, d ≠ 0 := fun d hd => hnul d (mem_cons_of_mem _ hd)
    unfold nameToFatLoop at h
    split at h
    · obtain ⟨-, h⟩ := ite_error_eq_ok.mp h
      exact ih hrest hbase hext hplain hplain' h
    rename_i hdot
    obtain ⟨hother, h⟩ := ite_error_eq_ok.mp h
    have hc : Plain (upper c) := plain_upper c (hnul c mem_cons_self) hdot hother
    have hsnoc : ∀ {part : List UInt8}, (∀ d ∈ part, Plain d) → ∀ d ∈ part ++ [upper c], Plain d :=
      fun hpart => forall_mem_append.mpr ⟨hpart, forall_mem_singleton.mpr hc⟩
    split at h
    · obtain ⟨hroom, h⟩ := ite_error_eq_ok.mp h
      obtain ⟨base', extension', hn, hr, hp⟩ :=
        ih hrest (by simp; omega) hext (hsnoc hplain) hplain' h
      exact ⟨base', extension', hn, hr, (prefix_append base _).trans hp⟩
    · obtain ⟨hroom, h⟩ := ite_error_eq_ok.mp h
      exact ih hrest hbase (by simp; omega) hplain (hsnoc hplain') h

/-- A name that fits is taken over, its first byte included. -/
theorem nameToFat_normal (hnul : ∀ c ∈ name, c ≠ 0) (h : nameToFat name = .ok result) :
    ∃ base extension, Normal base extension ∧ result = fatName base extension
      ∧ base.head? = name.head?.map upper := by
  obtain ⟨hne, h⟩ := ite_error_eq_ok.mp h
  cases name with
  | nil => exact absurd rfl hne
  | cons c name =>
    have hrest : ∀ d ∈ name, d ≠ 0 := fun d hd => hnul d (mem_cons_of_mem _ hd)
    unfold nameToFatLoop at h
    split at h
    · exact absurd (ite_error_eq_ok.mp h).1 (by simp)
    rename_i hdot
    obtain ⟨hother, h⟩ := ite_error_eq_ok.mp h
    have hc : Plain (upper c) := plain_upper c (hnul c mem_cons_self) hdot hother
    obtain ⟨base, extension, hn, hr, hp⟩ :=
      nameToFatLoop_normal hrest (by simp) (by simp) (by simpa using hc) (by simp) h
    obtain ⟨tail, rfl⟩ := hp
    exact ⟨_, extension, hn, hr, rfl⟩

/-! ### Numbered names -/

theorem digitsLoop_digit (room value : Nat) : ∀ c ∈ digitsLoop room value, Plain c ∧ c < 128 := by
  induction room generalizing value with
  | zero => intro c hc; exact absurd hc (by simp [digitsLoop])
  | succ room ih =>
    intro c hc
    rcases mem_cons.mp hc with rfl | hc
    · have hdigit : ∀ d : Fin 10, Plain (UInt8.ofNat (48 + d)) ∧ UInt8.ofNat (48 + d) < 128 := by
        decide +kernel
      exact hdigit ⟨value % 10, Nat.mod_lt _ (by decide)⟩
    · split at hc
      · cases hc
      · exact ih _ c hc

theorem length_digitsLoop (room value : Nat) : (digitsLoop room value).length ≤ room := by
  induction room generalizing value with
  | zero => exact le_refl 0
  | succ room ih =>
    rw [digitsLoop]
    split
    · simp
    · simpa using ih _

theorem aliasStem_char : ∀ c ∈ aliasStem name, Plain c ∧ c < 128 := by
  intro c hc
  unfold aliasStem at hc
  dsimp only at hc
  split at hc
  · have hfile : ∀ d ∈ [70, 73, 76, 69], Plain d ∧ d < 128 := by decide +kernel
    exact hfile c hc
  · obtain ⟨d, -, hd⟩ := mem_filterMap.mp (mem_of_mem_take hc)
    exact plain_aliasChar d c hd

/-- A numbered name is in normal form and all ASCII. -/
theorem numbered_normal :
    ∃ base extension, Normal base extension ∧ numbered name number = fatName base extension
      ∧ ∀ c ∈ base, c < 128 := by
  have hlen : (aliasSuffix number).length ≤ 8 := by
    have := length_digitsLoop 6 number
    simp [aliasSuffix]
    omega
  have hsuffix : ∀ c ∈ aliasSuffix number, Plain c ∧ c < 128 := forall_mem_cons.mpr
    ⟨by decide, fun c hc => digitsLoop_digit 6 number c (mem_reverse.mp hc)⟩
  have hbase : ∀ c ∈ (aliasStem name).take (8 - (aliasSuffix number).length) ++ aliasSuffix number,
      Plain c ∧ c < 128 :=
    forall_mem_append.mpr ⟨fun c hc => aliasStem_char c (mem_of_mem_take hc), hsuffix⟩
  refine ⟨_, aliasExtension name, ⟨?_, ?_, ?_, fun c hc => (hbase c hc).1, ?_⟩, rfl,
    fun c hc => (hbase c hc).2⟩
  · simp [aliasSuffix]
  · rw [length_append, length_take]
    omega
  · exact length_take_le _ _
  · intro c hc
    obtain ⟨d, -, hd⟩ := mem_filterMap.mp (mem_of_mem_take hc)
    exact (plain_aliasChar d c hd).1

/-! ### The result -/

section

variable {read : Nat → Except Err Sector} {vol : Volume} {mnt : Mount} {dir : Dir}
  {candidate base extension : List UInt8}

theorem aliasVisitor_false {e : LongEntry} {found : Bool}
    (h : aliasVisitor candidate e found = .ok false) :
    found = false ∧ nameToFat e.shortName ≠ .ok candidate := by
  unfold aliasVisitor at h
  split at h
  · rename_i current hcur
    have hsplit := ok.inj h
    split at hsplit
    · cases hsplit
    · rename_i hne
      exact ⟨hsplit, fun heq => hne (ok.inj (hcur.symm.trans heq))⟩
  · rename_i err hcur
    exact ⟨ok.inj h, fun heq => nomatch hcur.symm.trans heq⟩

theorem foldlM_aliasVisitor {entries : List LongEntry} {found : Bool}
    (h : entries.foldlM (fun found e => aliasVisitor candidate e found) found = .ok false) :
    found = false ∧ ∀ e ∈ entries, nameToFat e.shortName ≠ .ok candidate := by
  induction entries generalizing found with
  | nil => exact ⟨ok.inj h, by simp⟩
  | cons e entries ih =>
    rw [foldlM_cons] at h
    obtain ⟨found', hfirst, h⟩ := bind_eq_ok.mp h
    obtain ⟨rfl, hrest⟩ := ih h
    obtain ⟨hfound, hne⟩ := aliasVisitor_false hfirst
    exact ⟨hfound, forall_mem_cons.mpr ⟨hne, hrest⟩⟩

/-- A candidate that is not used is the short name of no entry. -/
theorem aliasIsUsed_zero (h : aliasIsUsed read vol mnt dir candidate = 0) :
    ∃ entries, walkDirectoryLong read vol mnt dir collect [] = .ok entries
      ∧ ∀ e ∈ entries, nameToFat e.shortName ≠ .ok candidate := by
  unfold aliasIsUsed at h
  split at h
  · rename_i found hwalk
    cases found with
    | true => cases h
    | false =>
      obtain ⟨entries, hentries, hfold⟩ := walkDirectoryLong_fold hwalk
      exact ⟨entries, hentries, (foldlM_aliasVisitor hfold).2⟩
  · cases h

theorem aliasLoop_ok {rounds : Nat}
    (h : aliasLoop read vol mnt dir name rounds number = .ok result) :
    ∃ number', result = numbered name number' ∧ aliasIsUsed read vol mnt dir result = 0 := by
  induction rounds generalizing number with
  | zero => exact absurd h (by simp [aliasLoop])
  | succ rounds ih =>
    rw [aliasLoop] at h
    split at h
    · rename_i hfree
      obtain rfl := ok.inj h
      exact ⟨number, rfl, hfree⟩
    · exact ih h

/-- What a generated short name is: the name itself or a numbered one, and not used. -/
theorem generateAlias_ok (h : generateAlias read vol mnt dir name = .ok result) :
    (nameToFat name = .ok result ∨ ∃ number, result = numbered name number)
      ∧ aliasIsUsed read vol mnt dir result = 0 := by
  unfold generateAlias at h
  split at h
  · rename_i candidate hname
    split at h
    · rename_i hfree
      obtain rfl := ok.inj h
      exact ⟨.inl hname, hfree⟩
    · obtain ⟨number, hr, hfree⟩ := aliasLoop_ok h
      exact ⟨.inr ⟨number, hr⟩, hfree⟩
  · obtain ⟨number, hr, hfree⟩ := aliasLoop_ok h
    exact ⟨.inr ⟨number, hr⟩, hfree⟩

/-- A short name fit for a new entry. -/
structure SoundAlias (read : Nat → Except Err Sector) (vol : Volume) (mnt : Mount) (dir : Dir)
    (result : List UInt8) : Prop where
  /-- Its entry is neither the end of the directory nor deleted. -/
  live : bufferOf result 0 ≠ 0 ∧ bufferOf result 0 ≠ 0xE5
  /-- No entry has it. Entries with the same eleven bytes have the same text. -/
  fresh : ∃ entries, walkDirectoryLong read vol mnt dir collect [] = .ok entries
    ∧ ∀ e ∈ entries, e.shortName ≠ shortText (bufferOf result)
  /-- Text and bytes agree. -/
  stable : result.length = 11 ∧ nameToFat (shortText (bufferOf result)) = .ok result

theorem bufferOf_fatName_zero (h : Normal base extension) :
    base.head? = some (bufferOf (fatName base extension) 0) := by
  cases base with
  | nil => exact absurd rfl h.base_ne
  | cons c base => rfl

theorem length_fatName (h : Normal base extension) : (fatName base extension).length = 11 := by
  have := h.base_le
  have := h.extension_le
  simp only [fatName, length_append, length_replicate]
  omega

/-- In normal form and not used, only the first byte is left to look at. -/
theorem soundAlias_of_normal (h : Normal base extension)
    (hfree : aliasIsUsed read vol mnt dir (fatName base extension) = 0)
    (hlive : bufferOf (fatName base extension) 0 ≠ 0xE5) :
    SoundAlias read vol mnt dir (fatName base extension) := by
  have hzero : bufferOf (fatName base extension) 0 ≠ 0 := by
    have hmem := mem_of_mem_head? (bufferOf_fatName_zero h)
    exact (h.base_plain _ hmem).1
  obtain ⟨entries, hwalk, hfresh⟩ := aliasIsUsed_zero hfree
  refine ⟨⟨hzero, hlive⟩, ⟨entries, hwalk, fun e he heq => ?_⟩, length_fatName h, ?_⟩
  · apply hfresh e he
    rw [heq, shortText_fatName h, nameToFat_nameText h]
  · rw [shortText_fatName h, nameToFat_nameText h]

end

/-- **Alias generation.** A generated short name is fit for a new entry, except for a name that
starts with the byte `0xE5`, is a short name as it is, and whose short name the directory does
not have yet. -/
theorem generateAlias_sound_iff (read : Nat → Except Err Sector) (vol : Volume) (mnt : Mount)
    (dir : Dir) (name result : List UInt8) (hnul : ∀ c ∈ name, c ≠ 0)
    (h : generateAlias read vol mnt dir name = .ok result) :
    SoundAlias read vol mnt dir result
      ↔ ¬(name.head? = some 0xE5 ∧ ∃ candidate, nameToFat name = .ok candidate
        ∧ aliasIsUsed read vol mnt dir candidate = 0) := by
  obtain ⟨hkind, hfree⟩ := generateAlias_ok h
  constructor
  · rintro hsound ⟨hhead, candidate, hname, hunused⟩
    -- The name is tried first, so it is the result.
    rw [generateAlias, hname] at h
    obtain rfl := ok.inj ((if_pos hunused).symm.trans h)
    obtain ⟨base, extension, hn, rfl, hfirst⟩ := nameToFat_normal hnul hname
    rw [bufferOf_fatName_zero hn, hhead] at hfirst
    exact hsound.live.2 (Option.some.inj hfirst)
  · intro hcond
    rcases hkind with hname | ⟨number, hnumber⟩
    · obtain ⟨base, extension, hn, rfl, hfirst⟩ := nameToFat_normal hnul hname
      refine soundAlias_of_normal hn hfree (fun hdel => hcond ⟨?_, _, hname, hfree⟩)
      rw [bufferOf_fatName_zero hn, hdel] at hfirst
      obtain ⟨c, hc, hup⟩ := Option.map_eq_some_iff.mp hfirst.symm
      rw [hc, (upper_eq_deleted c).mp hup]
    obtain ⟨base, extension, hn, heq, hascii⟩ := numbered_normal
    rw [hnumber, heq] at hfree ⊢
    refine soundAlias_of_normal hn hfree (fun hdel => ?_)
    have hmem := mem_of_mem_head? (bufferOf_fatName_zero hn)
    rw [hdel] at hmem
    exact absurd (hascii _ hmem) (by decide)

/-- A FAT32 volume whose root directory is empty. -/
def emptyVolume : Volume := ⟨.raw, 0, 0x0C, true, false, 0, 70000⟩

def emptyMount : Mount := ⟨.fat32, 1, 2, 0, 70000, 32, 540, 0, 0, 1112, 68888, 2⟩

def emptyRead : Nat → Except Err Sector := fun _ => .ok fun _ => 0

/-- The name `a.b` becomes the short name `A.B`. -/
theorem generateAlias_sound_letter :
    SoundAlias emptyRead emptyVolume emptyMount ⟨2, false⟩ (fatName [65] [66]) := by
  refine (generateAlias_sound_iff emptyRead emptyVolume emptyMount ⟨2, false⟩ [97, 46, 98]
    (fatName [65] [66]) (by decide +kernel) ?_).mpr fun hcond => absurd hcond.1 (by decide)
  rfl

/-- The character U+5927, bytes `E5 A4 A7`, is taken as it is: the entry of the new file reads as
a deleted one. -/
theorem generateAlias_deleted_marker :
    (generateAlias emptyRead emptyVolume emptyMount ⟨2, false⟩ (utf8 [Char.ofNat 0x5927])).toOption
        = some (fatName [0xE5, 0xA4, 0xA7] [])
      ∧ bufferOf (fatName [0xE5, 0xA4, 0xA7] []) 0 = 0xE5 := by
  decide +kernel

end ZephyrOS.Storage
