import Mathlib.Algebra.Group.Nat.Defs
import Mathlib.Order.Lattice
import ZephyrOS.Core.Errors

/-!
# Package versions

`app_package_compare_versions` of `app_package.c` compares the digits of the components as text,
after the leading zeros are skipped. That is the order of the numbers, however many digits they have.
-/

namespace ZephyrOS.Package

open List

/-- The loop of `app_package_version_is_valid` over the characters that are left. -/
def versionScan : List UInt8 → Nat → Nat → Bool
  | [], dots, digits => dots = 2 ∧ digits ≠ 0
  | c :: cs, dots, digits =>
    if c = 46 then
      if digits = 0 then false else versionScan cs (dots + 1) 0
    else if 48 ≤ c ∧ c ≤ 57 then versionScan cs dots (digits + 1)
    else false

def versionIsValid (version : List UInt8) : Bool := version ≠ [] ∧ versionScan version 0 0

/-- The last digit of a component is not skipped. -/
def skipZeros : List UInt8 → List UInt8
  | c :: d :: cs => if c = 48 then skipZeros (d :: cs) else c :: d :: cs
  | cs => cs

def compareDigits : List UInt8 → List UInt8 → Option Int
  | c :: cs, d :: ds => if c ≠ d then some (if c > d then 1 else -1) else compareDigits cs ds
  | _, _ => none

/-- A round of the loop, at the two cursors. -/
def comparePart (left right : List UInt8) : Option Int :=
  let left := skipZeros (left.takeWhile (· ≠ 46))
  let right := skipZeros (right.takeWhile (· ≠ 46))
  if left.length ≠ right.length then some (if left.length > right.length then 1 else -1)
  else compareDigits left right

def nextPart (cursor : List UInt8) : List UInt8 := (cursor.dropWhile (· ≠ 46)).tail

def compareParts : Nat → List UInt8 → List UInt8 → Int
  | 0, _, _ => 0
  | parts + 1, left, right => match comparePart left right with
    | some comparison => comparison
    | none => compareParts parts (nextPart left) (nextPart right)

/-- `app_package_compare_versions`. -/
def compareVersions (left right : List UInt8) : Except Err Int :=
  if !versionIsValid left || !versionIsValid right then .error .invalid
  else .ok (compareParts 3 left right)

/-! ### The numbers -/

def number : List UInt8 → Nat
  | [] => 0
  | c :: cs => (c.toNat - 48) * 10 ^ cs.length + number cs

/-- The numbers of a version. They are compared lexicographically. -/
def numbers (version : List UInt8) : List Nat := (version.splitOn 46).map number

/-- What the loop says of a component: nothing if the numbers are equal. -/
def verdict : Ordering → Option Int
  | .lt => some (-1)
  | .eq => none
  | .gt => some 1

def sign (o : Ordering) : Int := (verdict o).getD 0

def Digits (cs : List UInt8) : Prop := ∀ c ∈ cs, 48 ≤ c ∧ c ≤ 57

variable {a b cs ds v w : List UInt8} {c d : UInt8} {dots digits : Nat}

theorem Digits.tail (h : Digits (c :: cs)) : Digits cs := fun x hx => h x (mem_cons_of_mem _ hx)

theorem Digits.head (h : Digits (c :: cs)) : 48 ≤ c.toNat ∧ c.toNat ≤ 57 := h c mem_cons_self

theorem Digits.not_mem (h : Digits cs) : 46 ∉ cs := by
  intro hmem
  have := (h 46 hmem).1
  revert this
  decide

theorem number_lt (h : Digits cs) : number cs < 10 ^ cs.length := by
  induction cs with
  | nil => simp [number]
  | cons c cs ih =>
    have hcs := ih h.tail
    have hmul : (c.toNat - 48) * 10 ^ cs.length ≤ 9 * 10 ^ cs.length :=
      Nat.mul_le_mul_right _ (by have := h.head; omega)
    rw [number, length_cons, Nat.pow_succ]
    omega

/-- Of two components of one length the first digit decides. -/
theorem number_lt_of_head (hc : Digits (c :: cs)) (hlen : cs.length = ds.length) (hlt : c < d) :
    number (c :: cs) < number (d :: ds) := by
  have hcs := number_lt hc.tail
  have hhead : c.toNat < d.toNat := hlt
  have hmul : (c.toNat - 48 + 1) * 10 ^ ds.length ≤ (d.toNat - 48) * 10 ^ ds.length :=
    Nat.mul_le_mul_right _ (by have := hc.head; omega)
  rw [number, number, hlen]
  rw [hlen] at hcs
  rw [Nat.add_mul, Nat.one_mul] at hmul
  omega

theorem verdict_of_ne {n m : Nat} (h : n ≠ m) :
    verdict (compare n m) = some (if n > m then 1 else -1) := by
  rw [Nat.compare_eq_ite_lt]
  split_ifs <;> first | rfl | omega

theorem compareDigits_eq (hc : Digits cs) (hd : Digits ds) (hlen : cs.length = ds.length) :
    compareDigits cs ds = verdict (compare (number cs) (number ds)) := by
  induction cs generalizing ds with
  | nil =>
    obtain rfl := length_eq_zero_iff.mp hlen.symm
    rfl
  | cons c cs ih =>
    cases ds with
    | nil => cases hlen
    | cons d ds =>
      have hlen' : cs.length = ds.length := Nat.succ.inj hlen
      rw [compareDigits]
      by_cases heq : c = d
      · subst heq
        rw [if_neg (not_not_intro rfl), ih hc.tail hd.tail hlen', number, number, hlen']
        simp only [Nat.compare_eq_ite_lt, Nat.add_lt_add_iff_left]
      rw [if_pos heq]
      -- the first digit that differs decides
      rcases UInt8.lt_or_lt_of_ne heq with hlt | hgt
      · have hn := number_lt_of_head hc hlen' hlt
        rw [if_neg (UInt8.not_lt.mpr (UInt8.le_of_lt hlt)), verdict_of_ne hn.ne, if_neg hn.not_gt]
      · have hn := number_lt_of_head hd hlen'.symm hgt
        rw [if_pos hgt, verdict_of_ne hn.ne', if_pos hn]

/-- A component: one digit at least. -/
structure Group (cs : List UInt8) : Prop where
  digits : Digits cs
  ne_nil : cs ≠ []

/-- What is left is the same number, and begins with a zero only if that is all of it. -/
theorem skipZeros_spec (h : Group cs) :
    Digits (skipZeros cs) ∧ number (skipZeros cs) = number cs ∧ 0 < (skipZeros cs).length ∧
      (1 < (skipZeros cs).length → 10 ^ ((skipZeros cs).length - 1) ≤ number cs) := by
  fun_induction skipZeros cs with
  | case1 d cs ih =>
    have hzero : number (48 :: d :: cs) = number (d :: cs) := by rw [number]; simp
    rw [hzero]
    exact ih ⟨h.digits.tail, cons_ne_nil _ _⟩
  | case2 c d cs hc =>
    refine ⟨h.digits, rfl, by simp, fun _ => ?_⟩
    have hpos : 1 ≤ c.toNat - 48 := by
      have hne : c.toNat ≠ 48 := fun he => hc (UInt8.toNat_inj.mp he)
      have := h.digits.head
      omega
    have hmul := Nat.mul_le_mul_right (10 ^ (d :: cs).length) hpos
    rw [Nat.one_mul] at hmul
    rw [number, length_cons, Nat.add_sub_cancel]
    omega
  | case3 cs hcs =>
    refine ⟨h.digits, rfl, length_pos_iff.mpr h.ne_nil, fun hlen => ?_⟩
    match cs, hcs, hlen with
    | c :: d :: cs, hcs, _ => exact absurd rfl (hcs c d cs)

/-- The longer component is the greater number. -/
theorem number_lt_of_length (ha : Group a) (hb : Group b)
    (hlt : (skipZeros a).length < (skipZeros b).length) : number a < number b := by
  obtain ⟨hda, hna, hpos, -⟩ := skipZeros_spec ha
  obtain ⟨-, -, -, hbig⟩ := skipZeros_spec hb
  have hsmall := number_lt hda
  have hpow : 10 ^ (skipZeros a).length ≤ 10 ^ ((skipZeros b).length - 1) :=
    Nat.pow_le_pow_right (by decide) (by omega)
  have := hbig (by omega)
  omega

/-- A round compares the numbers at the cursors. -/
theorem comparePart_eq (ha : Group a) (hb : Group b) (hv : v.takeWhile (· ≠ 46) = a)
    (hw : w.takeWhile (· ≠ 46) = b) : comparePart v w = verdict (compare (number a) (number b)) := by
  rw [comparePart, hv, hw]
  -- the length decides, unless it is the same
  rcases lt_trichotomy (skipZeros a).length (skipZeros b).length with hlt | heq | hgt
  · have hn := number_lt_of_length ha hb hlt
    rw [if_pos hlt.ne, if_neg hlt.not_gt, verdict_of_ne hn.ne, if_neg hn.not_gt]
  · obtain ⟨hda, hna, -⟩ := skipZeros_spec ha
    obtain ⟨hdb, hnb, -⟩ := skipZeros_spec hb
    rw [if_neg (not_not_intro heq), compareDigits_eq hda hdb heq, hna, hnb]
  · have hn := number_lt_of_length hb ha hgt
    rw [if_pos hgt.ne', if_pos hgt, verdict_of_ne hn.ne', if_pos hn]

/-! ### The components -/

theorem Digits.all_ne (h : Digits cs) : ∀ c ∈ cs, decide (c ≠ 46) = true :=
  fun _ hc => decide_eq_true fun he => h.not_mem (he ▸ hc)

theorem takeWhile_dot (h : Digits a) : (a ++ 46 :: v).takeWhile (· ≠ 46) = a := by
  rw [takeWhile_append_of_pos h.all_ne]
  simp

theorem takeWhile_last (h : Digits a) : a.takeWhile (· ≠ 46) = a := by
  simpa using @takeWhile_append_of_pos _ _ _ [] h.all_ne

theorem nextPart_dot (h : Digits a) : nextPart (a ++ 46 :: v) = v := by
  rw [nextPart, dropWhile_append_of_pos h.all_ne]
  simp

theorem compareParts_dot {n : Nat} {o : Ordering} (ha : Group a) (hb : Group b)
    (h : compareParts n v w = sign o) : compareParts (n + 1) (a ++ 46 :: v) (b ++ 46 :: w) =
      sign ((compare (number a) (number b)).then o) := by
  rw [compareParts, comparePart_eq ha hb (takeWhile_dot ha.digits) (takeWhile_dot hb.digits),
    nextPart_dot ha.digits, nextPart_dot hb.digits, h]
  cases compare (number a) (number b) <;> rfl

theorem compareParts_last (ha : Group a) (hb : Group b) :
    compareParts 1 a b = sign (compare (number a) (number b)) := by
  rw [compareParts, comparePart_eq ha hb (takeWhile_last ha.digits) (takeWhile_last hb.digits)]
  cases compare (number a) (number b) <;> rfl

/-- The check reads a component and stops at its end or after its dot. It counts two dots. -/
theorem versionScan_cases (h : versionScan cs dots digits = true) : dots ≤ 2 ∧
    ∃ a, Digits a ∧ (a ≠ [] ∨ digits ≠ 0) ∧
      (cs = a ∧ dots = 2 ∨ ∃ v, cs = a ++ 46 :: v ∧ versionScan v (dots + 1) 0 = true) := by
  -- the scan ends, is refused, passes a dot, passes a digit, or is refused
  fun_induction versionScan cs dots digits with
  | case1 dots digits =>
    obtain ⟨hdots, hdigits⟩ := of_decide_eq_true h
    exact ⟨hdots.le, [], nofun, .inr hdigits, .inl ⟨rfl, hdots⟩⟩
  | case2 => cases h
  | case3 cs dots digits hd ih =>
    exact ⟨Nat.le_of_succ_le (ih h).1, [], nofun, .inr hd, .inr ⟨cs, rfl, h⟩⟩
  | case4 c cs dots digits hc hr ih =>
    obtain ⟨hdots, a, ha, -, hrest⟩ := ih h
    refine ⟨hdots, c :: a, forall_mem_cons.mpr ⟨hr, ha⟩, .inl (cons_ne_nil _ _), ?_⟩
    rcases hrest with ⟨rfl, hdots⟩ | ⟨v, rfl, hv⟩
    · exact .inl ⟨rfl, hdots⟩
    · exact .inr ⟨v, rfl, hv⟩
  | case5 => cases h

theorem versionScan_group (h : versionScan cs dots 0 = true) : ∃ a, Group a ∧
    (cs = a ∧ dots = 2 ∨ ∃ v, cs = a ++ 46 :: v ∧ versionScan v (dots + 1) 0 = true) := by
  obtain ⟨-, a, ha, hne, hrest⟩ := versionScan_cases h
  exact ⟨a, ⟨ha, hne.resolve_right (not_not_intro rfl)⟩, hrest⟩

/-- **A valid version has three components.** -/
theorem exists_groups (h : versionIsValid v = true) :
    ∃ a b c, Group a ∧ Group b ∧ Group c ∧ v = a ++ 46 :: (b ++ 46 :: c) := by
  obtain ⟨a, ha, ⟨-, hdots⟩ | ⟨v1, rfl, h1⟩⟩ := versionScan_group (of_decide_eq_true h).2
  · cases hdots
  obtain ⟨b, hb, ⟨-, hdots⟩ | ⟨v2, rfl, h2⟩⟩ := versionScan_group h1
  · cases hdots
  obtain ⟨c, hc, ⟨rfl, -⟩ | ⟨v3, -, h3⟩⟩ := versionScan_group h2
  · exact ⟨a, b, v2, ha, hb, hc, rfl⟩
  · exact absurd (versionScan_cases h3).1 (by decide)

theorem numbers_groups {c : List UInt8} (ha : Group a) (hb : Group b) (hc : Group c) :
    numbers (a ++ 46 :: (b ++ 46 :: c)) = [number a, number b, number c] := by
  rw [numbers, splitOn_append_cons_self_of_not_mem ha.digits.not_mem,
    splitOn_append_cons_self_of_not_mem hb.digits.not_mem, splitOn_eq_singleton hc.digits.not_mem]
  rfl

theorem compareVersions_eq (hv : versionIsValid v = true) (hw : versionIsValid w = true) :
    compareVersions v w = .ok (sign (compare (numbers v) (numbers w))) := by
  rw [compareVersions, hv, hw]
  obtain ⟨a, b, c, ha, hb, hc, rfl⟩ := exists_groups hv
  obtain ⟨a', b', c', ha', hb', hc', rfl⟩ := exists_groups hw
  have hparts := compareParts_dot ha ha' (compareParts_dot hb hb' (compareParts_last hc hc'))
  rw [numbers_groups ha hb hc, numbers_groups ha' hb' hc']
  rw [List.compare_cons_cons, List.compare_cons_cons, List.compare_cons_cons, List.compare_nil_nil,
    Ordering.then_eq, ← hparts]
  rfl

/-- `v` is not the greater version. -/
def NotAbove (v w : List UInt8) : Prop := ∃ comparison ≤ 0, compareVersions v w = .ok comparison

theorem notAbove_iff (hv : versionIsValid v = true) (hw : versionIsValid w = true) :
    NotAbove v w ↔ (compare (numbers v) (numbers w)).isLE = true := by
  rw [NotAbove, compareVersions_eq hv hw]
  cases compare (numbers v) (numbers w) <;> simp [sign, verdict]

/-- **Versions are ordered as their numbers are.** -/
theorem compareVersions_order {u : List UInt8} (hu : versionIsValid u = true)
    (hv : versionIsValid v = true) (hw : versionIsValid w = true) :
    (numbers v).length = 3 ∧
      compareVersions v w = .ok (sign (compare (numbers v) (numbers w))) ∧
      compareVersions v v = .ok 0 ∧
      (NotAbove v w → NotAbove w v → numbers v = numbers w) ∧
      (NotAbove u v → NotAbove v w → NotAbove u w) ∧ (NotAbove v w ∨ NotAbove w v) := by
  refine ⟨?_, compareVersions_eq hv hw, ?_, ?_, ?_, ?_⟩
  · obtain ⟨a, b, c, ha, hb, hc, rfl⟩ := exists_groups hv
    rw [numbers_groups ha hb hc]
    rfl
  · rw [compareVersions_eq hv hv, Std.ReflOrd.compare_self]
    rfl
  · rw [notAbove_iff hv hw, notAbove_iff hw hv]
    intro hle hge
    exact Std.LawfulEqCmp.eq_of_compare (Std.OrientedCmp.isLE_antisymm hle hge)
  · rw [notAbove_iff hu hv, notAbove_iff hv hw, notAbove_iff hu hw]
    exact Std.TransCmp.isLE_trans
  · rw [notAbove_iff hv hw, notAbove_iff hw hv, ← Std.OrientedCmp.isGE_iff_isLE]
    cases compare (numbers w) (numbers v) <;> simp

/-- `1.0.0`, `1.02.0` and `1.10.0`. -/
theorem compareVersions_order_zeros :
    compareVersions [49, 46, 48, 50, 46, 48] [49, 46, 49, 48, 46, 48] = .ok (-1) :=
  (compareVersions_order (u := [49, 46, 48, 46, 48]) (by decide) (by decide) (by decide)).2.1

end ZephyrOS.Package
