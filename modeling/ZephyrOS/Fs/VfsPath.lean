import Mathlib.Algebra.GroupWithZero.Nat
import Mathlib.Algebra.Order.BigOperators.Group.List
import Mathlib.Algebra.Order.Group.Nat
import ZephyrOS.Core.Errors
import ZephyrOS.Lib.Outcome

/-!
# Normal paths

`vfs_normalize_from` of `vfs_path.c`. It writes the components of a path one after the other into
the output and keeps a stack of where each begins, so that `..` can cut the output back to
there. What it computes is said without the buffer: a directory is the list of its components,
a path is resolved component by component, and a directory has one name.

A string is the list of its bytes before the terminator.
-/

namespace ZephyrOS.Vfs

open Lib List Nat

def maxPath : Nat := 256

def slash : UInt8 := 0x2F

def dot : List UInt8 := [0x2E]

def dotDot : List UInt8 := [0x2E, 0x2E]

/-- `/` or `\`. -/
def isSeparator (c : UInt8) : Bool := c == 0x2F || c == 0x5C

/-- `vfs_path_append`. -/
def pathAppend (path text : List UInt8) : Except Err (List UInt8) :=
  if maxPath ≤ path.length + text.length then .error .overflow else .ok (path ++ text)

/-- The output so far, and `segment_starts` with the last one first. -/
structure Output where
  text : List UInt8
  starts : List Nat

/-- The body of the loop of `vfs_normalize_from`, for one component. -/
def Output.put (o : Output) (segment : List UInt8) : Except Err Output :=
  if segment = dot then .ok o
  else if segment = dotDot then
    match o.starts with
    | [] => .error .invalid
    | start :: rest => .ok ⟨o.text.take start, rest⟩
  else if maxPath / 2 ≤ o.starts.length then .error .overflow
  else if 1 < o.text.length ∧ maxPath ≤ o.text.length + 1 then .error .overflow
  else
    let text := if 1 < o.text.length then o.text ++ [slash] else o.text
    if maxPath ≤ text.length + segment.length then .error .overflow
    else .ok ⟨text ++ segment, o.text.length :: o.starts⟩

/-- The loop of `vfs_normalize_from`, from `combined[cursor]` on. A round takes a byte at least. -/
def normalizeLoop : Nat → List UInt8 → Output → Except Err Output
  | 0, _, o => .ok o
  | fuel + 1, combined, o =>
    match combined.dropWhile isSeparator with
    | [] => .ok o
    | c :: rest => do
      let o ← o.put ((c :: rest).takeWhile fun c => !isSeparator c)
      normalizeLoop fuel ((c :: rest).dropWhile fun c => !isSeparator c) o

/-- What `vfs_normalize_from` puts before a path: the directory, ended by a separator. -/
def pathBase (path cwd : List UInt8) : Except Err (List UInt8) :=
  if isSeparator (path.headD 0) then .ok []
  else do
    let combined ← pathAppend [] cwd
    if 1 < combined.length ∧ combined.getLast? ≠ some slash then pathAppend combined [slash]
    else .ok combined

/-- `vfs_normalize_from`. -/
def normalizeFrom (path cwd : List UInt8) : Except Err (List UInt8) :=
  if path = [] then .error .invalid
  else if maxPath ≤ path.length ∨ maxPath ≤ cwd.length then .error .overflow
  else do
    let combined ← pathBase path cwd
    let combined ← pathAppend combined path
    let o ← normalizeLoop combined.length combined ⟨[slash], []⟩
    .ok o.text

/-! ### What a path means -/

/-- A directory: the components that lead to it, the last one first. -/
abbrev Dir := List (List UInt8)

/-- The components of a path, whatever separates them. -/
def components (path : List UInt8) : List (List UInt8) :=
  (path.splitOnP isSeparator).filter (· ≠ [])

/-- One component, resolved in a directory; the root has nothing above it. -/
def resolveStep (dir : Dir) (c : List UInt8) : Option Dir :=
  if c = dot then some dir
  else if c = dotDot then
    match dir with
    | [] => none
    | _ :: up => some up
  else some (c :: dir)

/-- The components one by one. -/
def resolve (dir : Dir) (cs : List (List UInt8)) : Option Dir := cs.foldlM resolveStep dir

/-- The components from the root on, each behind a separator. -/
def flat : Dir → List UInt8
  | [] => []
  | c :: up => flat up ++ slash :: c

/-- The one name of a directory. -/
def render (dir : Dir) : List UInt8 := if dir = [] then [slash] else flat dir

/-- What lies between two separators. -/
structure Word (c : List UInt8) : Prop where
  ne_nil : c ≠ []
  no_separator : ∀ b ∈ c, isSeparator b = false

/-- What a component of a normal path is. -/
structure Component (c : List UInt8) : Prop extends Word c where
  ne_dot : c ≠ dot
  ne_dotDot : c ≠ dotDot

variable {dir d : Dir} {cs : List (List UInt8)} {w path cwd : List UInt8} {n : Nat} {s : UInt8}
  {l c b : List UInt8} {up : Dir} {a : List UInt8}

/-! ### Components -/

theorem components_sep (hs : isSeparator s = true) (a b : List UInt8) :
    components (a ++ s :: b) = components a ++ components b := by
  unfold components
  rw [splitOnP_append_cons a b hs, filter_append]

theorem components_nil : components [] = [] := by simp [components]

theorem components_cons_sep (hs : isSeparator s = true) : components (s :: b) = components b := by
  have h := components_sep hs [] b
  rwa [components_nil] at h

theorem components_word (hw : Word w) : components w = [w] := by
  unfold components
  rw [splitOnP_eq_singleton hw.no_separator]
  simp [hw.ne_nil]

theorem components_flat (h : ∀ c ∈ dir, Component c) : components (flat dir) = dir.reverse := by
  induction dir with
  | nil => exact components_nil
  | cons c up ih =>
    obtain ⟨hc, hup⟩ := forall_mem_cons.mp h
    rw [flat, components_sep rfl, ih hup, components_word hc.toWord, reverse_cons]

theorem splitOnP_spec :
    ((l.splitOnP isSeparator).map (·.length + 1)).sum = l.length + 1 ∧
      ∀ c ∈ l.splitOnP isSeparator, ∀ b ∈ c, isSeparator b = false := by
  induction l with
  | nil => simp
  | cons b l ih =>
    rw [splitOnP_cons_eq_if_modifyHead]
    split
    · simp only [map_cons, sum_cons, length_nil, length_cons, forall_mem_cons]
      exact ⟨by omega, nofun, ih.2⟩
    rename_i hb
    -- the byte is the first one of the first piece
    obtain ⟨piece, pieces, heq⟩ := exists_cons_of_ne_nil (splitOnP_ne_nil isSeparator l)
    rw [heq] at ih ⊢
    simp only [modifyHead_cons, map_cons, sum_cons, length_cons, forall_mem_cons] at ih ⊢
    exact ⟨by omega, ⟨by simpa using hb, ih.2.1⟩, ih.2.2⟩

/-- How much the components take, each with its separator. -/
def room (cs : List (List UInt8)) : Nat := (cs.map (·.length + 1)).sum

theorem room_cons : room (w :: cs) = w.length + 1 + room cs := by simp [room]

theorem room_components : room (components l) ≤ l.length + 1 := by
  rw [← splitOnP_spec.1]
  exact (filter_sublist.map _).sum_le_sum fun _ _ => zero_le _

/-- Behind a first separator there is one byte less. -/
theorem room_absolute (h : isSeparator (l.headD 0) = true) : room (components l) ≤ l.length := by
  cases l with
  | nil => cases h
  | cons s l =>
    rw [components_cons_sep (s := s) h]
    exact room_components

theorem word_of_mem_components (h : w ∈ components l) : Word w := by
  obtain ⟨hw, hne⟩ := mem_filter.mp h
  exact ⟨by simpa using hne, splitOnP_spec.2 w hw⟩

theorem components_dropWhile : components (l.dropWhile isSeparator) = components l := by
  induction l with
  | nil => rfl
  | cons b l ih =>
    rw [dropWhile_cons]
    split
    · rename_i hb
      rw [ih, components_cons_sep hb]
    · rfl

/-- A path is cut at its first separator. -/
theorem components_cut {c : UInt8} (hc : isSeparator c = false) :
    components (c :: l) = (c :: l).takeWhile (fun c => !isSeparator c) ::
        components ((c :: l).dropWhile fun c => !isSeparator c) ∧
      ((c :: l).dropWhile fun c => !isSeparator c).length ≤ l.length := by
  have hword : Word ((c :: l).takeWhile fun c => !isSeparator c) := by
    refine ⟨by simp [hc], fun b hb => ?_⟩
    have := all_eq_true.mp all_takeWhile b hb
    simpa using this
  have hcut := takeWhile_append_dropWhile (p := fun c => !isSeparator c) (l := c :: l)
  have hpos := length_pos_of_ne_nil hword.ne_nil
  have hhead := head?_dropWhile_not (fun c => !isSeparator c) (c :: l)
  generalize (c :: l).takeWhile (fun c => !isSeparator c) = w at *
  generalize (c :: l).dropWhile (fun c => !isSeparator c) = rest at *
  have hlen := congrArg length hcut
  rw [length_append, length_cons] at hlen
  refine ⟨?_, by omega⟩
  rw [← hcut]
  cases rest with
  | nil => rw [append_nil, components_word hword, components_nil]
  | cons s rest =>
    have hs : isSeparator s = true := by simpa using hhead
    rw [components_sep hs, components_word hword, components_cons_sep hs]
    rfl

/-- The loop puts one component after the other. -/
theorem normalizeLoop_eq {o : Output} (l : List UInt8) (hl : l.length ≤ n) :
    normalizeLoop n l o = (components l).foldlM Output.put o := by
  induction n generalizing l o with
  | zero =>
    rw [length_eq_zero_iff.mp (le_zero.mp hl)]
    rfl
  | succ n ih =>
    rw [normalizeLoop, ← components_dropWhile]
    have hle := (dropWhile_sublist isSeparator (l := l)).length_le
    have hfirst := head?_dropWhile_not isSeparator l
    generalize l.dropWhile isSeparator = k at hle hfirst
    cases k with
    | nil => rfl
    | cons c k =>
      obtain ⟨hcut, hlen⟩ := components_cut (by simpa using hfirst)
      rw [length_cons] at hle
      rw [hcut]
      exact bind_congr fun o' => ih _ (by omega)

/-! ### The stack -/

/-- The output for a directory: its name, and where each component of it begins. -/
def outputOf : Dir → Output
  | [] => ⟨[slash], []⟩
  | c :: up => ⟨flat up ++ slash :: c, (outputOf up).text.length :: (outputOf up).starts⟩

theorem render_cons : render (c :: up) = flat up ++ slash :: c :=
  if_neg (cons_ne_nil c up)

theorem outputOf_text : (outputOf dir).text = render dir := by
  cases dir with
  | nil => rfl
  | cons c up => exact render_cons.symm

theorem outputOf_starts : (outputOf dir).starts.length = dir.length := by
  induction dir with
  | nil => rfl
  | cons c up ih => rw [outputOf, length_cons, length_cons, ih]

/-- Every component takes two bytes at least. -/
theorem length_flat (h : ∀ c ∈ dir, Component c) : 2 * dir.length ≤ (flat dir).length := by
  induction dir with
  | nil => exact le_refl 0
  | cons c up ih =>
    obtain ⟨hc, hup⟩ := forall_mem_cons.mp h
    have := length_pos_of_ne_nil hc.ne_nil
    have := ih hup
    rw [flat, length_append, length_cons, length_cons]
    omega

/-- The name and what separates the next component from it. -/
theorem render_sep (h : ∀ c ∈ dir, Component c) :
    (if 1 < (render dir).length then render dir ++ [slash] else render dir) = flat dir ++ [slash] ∧
      (1 < (render dir).length ↔ dir ≠ []) := by
  cases dir with
  | nil => exact ⟨rfl, by decide⟩
  | cons c up =>
    have hlong : 1 < (render (c :: up)).length := by
      have := length_flat h
      rw [render, if_neg (cons_ne_nil c up)]
      rw [length_cons] at this
      omega
    rw [if_pos hlong, render]
    exact ⟨rfl, fun _ => cons_ne_nil c up, fun _ => hlong⟩

/-- What the code answers when a path leads to a directory, or nowhere. -/
def answer : Option Dir → Except Err Output
  | none => .error .invalid
  | some dir => .ok (outputOf dir)

/-- **One component**, with room for it. -/
theorem put_outputOf (hdir : ∀ c ∈ dir, Component c) (hroom : (flat dir).length + (w.length + 1) < maxPath) :
    (outputOf dir).put w = answer (resolveStep dir w) := by
  unfold Output.put resolveStep
  split
  · rfl
  split
  · cases dir with
    | nil => rfl
    | cons c up =>
      -- the name of a directory is the beginning of the names below it
      have htake : (flat up ++ slash :: c).take (render up).length = (outputOf up).text := by
        rw [outputOf_text]
        cases up with
        | nil => rfl
        | cons b up => rw [render, if_neg (cons_ne_nil b up), take_left]
      rw [← outputOf_text] at htake
      simp only [outputOf, htake, answer]
  · obtain ⟨hsep, hlong⟩ := render_sep hdir
    have hcount := length_flat hdir
    rw [outputOf_starts, outputOf_text, hsep, if_neg (by omega), if_neg, if_neg, answer, outputOf,
      outputOf_text, append_assoc]
    · rfl
    · rw [length_append, length_singleton]
      omega
    · intro hc
      rw [render, if_neg (hlong.mp hc.1)] at hc
      omega

theorem resolveStep_spec (hdir : ∀ c ∈ dir, Component c) (hw : Word w) (h : resolveStep dir w = some d) :
    (∀ c ∈ d, Component c) ∧ (flat d).length ≤ (flat dir).length + (w.length + 1) := by
  unfold resolveStep at h
  split at h
  · cases h
    exact ⟨hdir, le_add_right _ _⟩
  rename_i hdot
  split at h
  · cases dir with
    | nil => cases h
    | cons c up =>
      cases h
      refine ⟨(forall_mem_cons.mp hdir).2, ?_⟩
      rw [flat, length_append]
      omega
  · rename_i hdotDot
    cases h
    refine ⟨forall_mem_cons.mpr ⟨⟨hw, hdot, hdotDot⟩, hdir⟩, ?_⟩
    rw [flat, length_append, length_cons]

/-- **All components**, with room for them. -/
theorem foldlM_put (hdir : ∀ c ∈ dir, Component c) (hcs : ∀ w ∈ cs, Word w)
    (hroom : (flat dir).length + room cs < maxPath) :
    cs.foldlM Output.put (outputOf dir) = answer (resolve dir cs) ∧
      ∀ d, resolve dir cs = some d → (∀ c ∈ d, Component c) ∧
        (flat d).length ≤ (flat dir).length + room cs := by
  induction cs generalizing dir with
  | nil =>
    refine ⟨rfl, fun d hd => ?_⟩
    cases hd
    exact ⟨hdir, le_add_right _ _⟩
  | cons w cs ih =>
    obtain ⟨hw, hcs⟩ := forall_mem_cons.mp hcs
    rw [room_cons] at hroom ⊢
    rw [foldlM_cons, put_outputOf hdir (by omega), resolve, foldlM_cons]
    cases hstep : resolveStep dir w with
    | none => exact ⟨rfl, nofun⟩
    | some e =>
      obtain ⟨he, hlen⟩ := resolveStep_spec hdir hw hstep
      obtain ⟨hfold, hres⟩ := ih he hcs (by omega)
      refine ⟨hfold, fun d hd => ⟨(hres d hd).1, ?_⟩⟩
      have := (hres d hd).2
      omega

/-! ### Normal paths -/

theorem resolve_self (h : ∀ c ∈ cs, Component c) : resolve dir cs = some (cs.reverse ++ dir) := by
  induction cs generalizing dir with
  | nil => rfl
  | cons c cs ih =>
    obtain ⟨hc, hcs⟩ := forall_mem_cons.mp h
    have hstep : resolveStep dir c = some (c :: dir) := by
      unfold resolveStep
      rw [if_neg hc.ne_dot, if_neg hc.ne_dotDot]
    rw [resolve, foldlM_cons, hstep, reverse_cons, append_assoc]
    exact ih hcs

theorem resolve_flat (h : ∀ c ∈ dir, Component c) : resolve [] (components (flat dir)) = some dir := by
  rw [components_flat h, resolve_self fun c hc => h c (mem_reverse.mp hc), reverse_reverse,
    append_nil]

/-- The path that is normalised: an absolute one as it is, another one below the directory. -/
def fullPath (dir : Dir) (path : List UInt8) : List UInt8 :=
  if isSeparator (path.headD 0) then path else flat dir ++ slash :: path

/-- Where the resolution of a path starts. -/
def startOf (dir : Dir) (path : List UInt8) : Dir :=
  if isSeparator (path.headD 0) then [] else dir

theorem flat_absolute (rest : List UInt8) :
    isSeparator ((flat dir ++ slash :: rest).headD 0) = true := by
  induction dir generalizing rest with
  | nil => rfl
  | cons c up ih =>
    rw [flat, append_assoc]
    exact ih _

theorem fullPath_absolute : isSeparator ((fullPath dir path).headD 0) = true := by
  unfold fullPath
  split
  · assumption
  · exact flat_absolute path

theorem render_absolute (dir : Dir) : isSeparator ((render dir).headD 0) = true := by
  cases dir with
  | nil => rfl
  | cons c up => exact flat_absolute c

theorem resolve_fullPath (hdir : ∀ c ∈ dir, Component c) :
    resolve [] (components (fullPath dir path)) = resolve (startOf dir path) (components path) := by
  unfold fullPath startOf
  split
  · rfl
  have h := resolve_flat hdir
  rw [resolve] at h
  rw [components_sep rfl, resolve, foldlM_append, h]
  rfl

theorem pathBase_append (hdir : ∀ c ∈ dir, Component c) (hcwd : (render dir).length < maxPath) :
    (pathBase path (render dir) >>= fun base => pathAppend base path) =
      if maxPath ≤ (fullPath dir path).length then .error .overflow else .ok (fullPath dir path) := by
  unfold pathBase fullPath
  split
  · rw [ok_bind, pathAppend, length_nil, zero_add, nil_append]
  rw [pathAppend, length_nil, zero_add, if_neg (not_le.mpr hcwd), ok_bind,
    nil_append, length_append, length_cons]
  cases dir with
  | nil =>
    rw [if_neg (by decide), ok_bind, pathAppend]
    simp [render, flat, add_comm]
  | cons c up =>
    have hc := hdir c mem_cons_self
    have hlong := (render_sep hdir).2.mpr (cons_ne_nil c up)
    rw [render_cons] at hlong ⊢
    -- the last byte is one of the last component
    have hlast : (flat up ++ slash :: c).getLast? ≠ some slash := by
      rw [getLast?_append, getLast?_cons, getLast?_eq_some_getLast hc.ne_nil]
      intro h
      have := hc.no_separator _ (getLast_mem hc.ne_nil)
      simp only [Option.some_or, Option.getD_some, Option.some.injEq] at h
      rw [h] at this
      cases this
    rw [if_pos ⟨hlong, hlast⟩, flat]
    generalize flat up ++ slash :: c = text
    unfold pathAppend
    by_cases hsep : maxPath ≤ text.length + [slash].length
    · rw [if_pos hsep, error_bind, if_pos (by rw [length_singleton] at hsep; omega)]
    · rw [if_neg hsep, ok_bind, length_append, append_assoc, length_singleton,
        add_assoc, add_comm 1]
      rfl

/-- **The loop over a whole path** that starts with a separator and fits. -/
theorem normalizeLoop_absolute (habs : isSeparator (path.headD 0) = true) (hfit : path.length < maxPath) :
    normalizeLoop path.length path ⟨[slash], []⟩ = answer (resolve [] (components path)) ∧
      ∀ d, resolve [] (components path) = some d →
        (∀ c ∈ d, Component c) ∧ (render d).length < maxPath := by
  have hroom := room_absolute habs
  obtain ⟨hfold, hres⟩ := @foldlM_put [] (components path) nofun
    (fun w => word_of_mem_components) (by rw [flat, length_nil]; omega)
  rw [normalizeLoop_eq path (le_refl _)]
  refine ⟨hfold, fun d hd => ⟨(hres d hd).1, ?_⟩⟩
  have hlen := (hres d hd).2
  rw [render]
  split
  · decide
  · rw [flat, length_nil] at hlen
    omega

/-- **`vfs_normalize_from` in a directory.** -/
theorem normalizeFrom_eq (hdir : ∀ c ∈ dir, Component c) (hcwd : (render dir).length < maxPath) :
    normalizeFrom path (render dir) =
      if path = [] then .error .invalid
      else if maxPath ≤ (fullPath dir path).length then .error .overflow
      else match resolve (startOf dir path) (components path) with
        | none => .error .invalid
        | some d => .ok (render d) := by
  have hle : path.length ≤ (fullPath dir path).length := by
    unfold fullPath
    split
    · exact le_refl _
    · rw [length_append, length_cons]
      omega
  refine if_congr .rfl rfl ?_
  by_cases hlong : maxPath ≤ (fullPath dir path).length
  · rw [if_pos hlong, ← bind_assoc, pathBase_append hdir hcwd, if_pos hlong]
    exact ite_self _
  rw [if_neg (by omega), if_neg hlong, ← bind_assoc, pathBase_append hdir hcwd, if_neg hlong, ok_bind,
    (normalizeLoop_absolute fullPath_absolute (Nat.lt_of_not_le hlong)).1,
    resolve_fullPath hdir]
  cases resolve (startOf dir path) (components path) with
  | none => rfl
  | some d => exact congrArg _ outputOf_text

/-- A normal path is left as it is, wherever one is. -/
theorem normalizeFrom_render (h : ∀ c ∈ dir, Component c) (hlen : (render dir).length < maxPath)
    (hcwd : cwd.length < maxPath) : normalizeFrom (render dir) cwd = .ok (render dir) := by
  have habs := render_absolute dir
  have hne : render dir ≠ [] := by
    intro hc
    rw [hc] at habs
    cases habs
  have hcomponents : components (render dir) = components (flat dir) := by
    cases dir with
    | nil => rfl
    | cons c up => rfl
  -- an absolute path does not look at the directory
  rw [normalizeFrom, if_neg hne, if_neg (by omega), pathBase, if_pos habs, ok_bind, pathAppend,
    length_nil, if_neg (by omega), ok_bind, nil_append,
    (normalizeLoop_absolute habs hlen).1, hcomponents, resolve_flat h]
  exact congrArg _ outputOf_text

/-- **`vfs_normalize_from` returns the name of what the path means.** In the directory `dir` the
result is the name of the directory the components of the path lead to, one by one; it is refused
as invalid exactly when it is empty or, not being too long, climbs above the root; and a result is
left as it is, wherever one is. -/
theorem normalizeFrom_normal (hdir : ∀ c ∈ dir, Component c) (hcwd : (render dir).length < maxPath)
    (path : List UInt8) :
    (∀ out, normalizeFrom path (render dir) = .ok out → ∃ d, (∀ c ∈ d, Component c) ∧
      out = render d ∧ resolve (startOf dir path) (components path) = some d ∧
      ∀ cwd : List UInt8, cwd.length < maxPath → normalizeFrom out cwd = .ok out) ∧
    (normalizeFrom path (render dir) = .error .invalid ↔ path = [] ∨
      (fullPath dir path).length < maxPath ∧ resolve (startOf dir path) (components path) = none) ∧
    (normalizeFrom path (render dir) = .error .overflow ↔
      path ≠ [] ∧ maxPath ≤ (fullPath dir path).length) := by
  rw [normalizeFrom_eq hdir hcwd]
  by_cases hne : path = []
  · simp [hne]
  by_cases hlong : maxPath ≤ (fullPath dir path).length
  · simp [hne, hlong]
  have hfit := Nat.lt_of_not_le hlong
  cases hres : resolve (startOf dir path) (components path) with
  | none => simp [hne, hlong, hfit]
  | some d =>
    refine ⟨fun out ho => ?_, by simp [hne, hlong], by simp [hne, hlong]⟩
    rw [if_neg hne, if_neg hlong] at ho
    cases ho
    rw [← resolve_fullPath hdir] at hres
    obtain ⟨hd, hlen⟩ := (normalizeLoop_absolute fullPath_absolute hfit).2 d hres
    exact ⟨d, hd, rfl, rfl, fun cwd hcwd => normalizeFrom_render hd hlen hcwd⟩

/-- `../b` in `/a`. -/
theorem normalizeFrom_normal_sibling : ∃ d, (∀ c ∈ d, Component c) ∧ [0x2F, 0x62] = render d ∧
    resolve (startOf [[0x61]] [0x2E, 0x2E, 0x2F, 0x62]) (components [0x2E, 0x2E, 0x2F, 0x62])
      = some d := by
  have hcomponent : ∀ c ∈ [[0x61]], Component c := by
    intro c hc
    rw [mem_singleton.mp hc]
    exact ⟨⟨by decide, fun b hb => by rw [mem_singleton.mp hb]; rfl⟩, by decide, by decide⟩
  obtain ⟨d, hd, hout, hres, _⟩ := (normalizeFrom_normal hcomponent (by decide)
    [0x2E, 0x2E, 0x2F, 0x62]).1 [0x2F, 0x62] (by decide)
  exact ⟨d, hd, hout, hres⟩

/-- `../..` in a directory with a name of 253 bytes: above the root, and too long to see it. -/
theorem normalizeFrom_long_escape :
    resolve [List.replicate 253 0x61] (components [0x2E, 0x2E, 0x2F, 0x2E, 0x2E]) = none ∧
    normalizeFrom [0x2E, 0x2E, 0x2F, 0x2E, 0x2E] (render [List.replicate 253 0x61])
      = .error .overflow := by
  decide +kernel

/-! ### One directory after the other -/

theorem fullPath_join (ha : a ≠ []) : fullPath dir (a ++ slash :: b) = fullPath dir a ++ slash :: b
    ∧ startOf dir (a ++ slash :: b) = startOf dir a := by
  cases a with
  | nil => exact absurd rfl ha
  | cons c a =>
    unfold fullPath startOf
    rw [cons_append, headD_cons, headD_cons]
    split <;> simp

/-- **A path can be walked in steps.** To change to the directory `a` and to look up `b` there is to
look up `a/b`, if that fits; both are refused if `a` leads above the root. -/
theorem normalizeFrom_join (hdir : ∀ c ∈ dir, Component c) (hcwd : (render dir).length < maxPath)
    (ha : a ≠ []) (hb : b ≠ []) (hrel : ¬ isSeparator (b.headD 0) = true)
    (hfit : (fullPath dir (a ++ slash :: b)).length < maxPath) :
    (normalizeFrom a (render dir) >>= normalizeFrom b) = normalizeFrom (a ++ slash :: b) (render dir) := by
  obtain ⟨hfull, hstart⟩ := @fullPath_join dir b a ha
  have hlen := hfit
  rw [hfull, length_append, length_cons] at hlen
  have hsplit : resolve (startOf dir a) (components a ++ components b) =
      resolve (startOf dir a) (components a) >>= fun d => resolve d (components b) := foldlM_append
  rw [normalizeFrom_eq hdir hcwd, normalizeFrom_eq hdir hcwd, if_neg ha, if_neg (by omega),
    if_neg (append_ne_nil_of_left_ne_nil ha _), if_neg (by omega), hstart, components_sep rfl, hsplit]
  cases hres : resolve (startOf dir a) (components a) with
  | none => rfl
  | some d =>
    -- the name of `d` is not longer than the path that led there
    rw [← resolve_fullPath hdir] at hres
    have hroom := room_absolute (@fullPath_absolute dir a)
    obtain ⟨hd, hflat⟩ := (@foldlM_put [] _ nofun (fun _ => word_of_mem_components)
      (by rw [flat, length_nil]; omega)).2 d hres
    rw [flat, length_nil] at hflat
    have hbelow : fullPath d b = flat d ++ slash :: b := if_neg hrel
    have hrender := ((normalizeLoop_absolute fullPath_absolute (by omega)).2 d hres).2
    rw [ok_bind, normalizeFrom_eq hd hrender, if_neg hb, hbelow, length_append, length_cons,
      if_neg (by omega), startOf, if_neg hrel]
    rfl

/-- `..` and then `b`, in `/a`. -/
theorem normalizeFrom_join_sibling : (normalizeFrom dotDot (render [[0x61]]) >>= normalizeFrom [0x62])
    = normalizeFrom [0x2E, 0x2E, 0x2F, 0x62] (render [[0x61]]) := by
  refine normalizeFrom_join (fun c hc => ?_) (by decide) (by decide) (by decide) (by decide) (by decide)
  rw [mem_singleton.mp hc]
  exact ⟨⟨by decide, fun b hb => by rw [mem_singleton.mp hb]; rfl⟩, by decide, by decide⟩

end ZephyrOS.Vfs
