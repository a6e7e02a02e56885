import Mathlib.Data.List.Forall2
import ZephyrOS.Lib.Outcome
import ZephyrOS.Update.Zupd

/-!
# What an accepted package looks like

`verifyInternal` reads a package piece by piece, and its contents may be others at every read. What
it accepts is made of the pieces it read: `Accepted` says what is known of them. They lie one after
the other from the first byte to the last, the entries are those of the table, and the message that
was signed is the pieces themselves. A file that stayed the same is their concatenation.
-/

namespace ZephyrOS.Zupd

open Lib RootFiles List Program Option
open Update (Version Base Slot)

/-! ### The table -/

variable {u : Unit} {entry : Entry} {path : Path} {bytes : List UInt8} {table : Nat → UInt8}
  {remaining fuel : Nat} {ρ : Type} {m m' : Machine Path Err ρ} {size offset : Nat}
  {package : Package}

theorem require_eq_ok {c : Prop} [Decidable c] {reason : Reason} :
    require c reason = .ok u ↔ c := by
  unfold require
  by_cases h : c
  · rw [if_pos h]; exact ⟨fun _ => h, fun _ => rfl⟩
  · rw [if_neg h]; exact ⟨nofun, fun h' => absurd h' h⟩

/-- A path that compares lower is lower, byte by byte. -/
theorem lt_of_comparePaths {first : List UInt8} :
    ∀ {second : List UInt8}, comparePaths first second < 0 → first < second := by
  induction first with
  | nil =>
    intro second h
    cases second with
    | nil => exact absurd h (by simp [comparePaths])
    | cons b second => exact nil_lt_cons b second
  | cons a first ih =>
    intro second h
    cases second with
    | nil =>
      rw [comparePaths] at h
      omega
    | cons b second =>
      rw [comparePaths] at h
      split at h
      · rename_i hab
        subst hab
        exact cons_lt_cons_self.mpr (ih h)
      · refine cons_lt_cons_iff.mpr (.inl ?_)
        rw [UInt8.lt_iff_toNat_lt]
        omega

/-- Payloads one after the other from `off` on, up to `stop`. -/
def Consecutive : Nat → List Entry → Nat → Prop
  | off, [], stop => off = stop
  | off, entry :: entries, stop =>
    entry.payloadOffset = off ∧ Consecutive (off + entry.payloadSize) entries stop

/-- A path of the table, as far as the checks of one entry go. -/
structure EntryOk (entry : Entry) : Prop where
  path_ne : entry.path ≠ []
  size_pos : entry.payloadSize ≠ 0
  size_le : entry.payloadSize ≤ maxPayloadSize

theorem parseEntry_ok {raw off : Nat}
    (h : parseEntry table raw off = .ok entry) : EntryOk entry ∧ entry.payloadOffset = off := by
  obtain ⟨path, hpath, h⟩ := bind_eq_ok.mp h
  obtain ⟨_, hsize, h⟩ := bind_eq_ok.mp h
  obtain ⟨_, -, h⟩ := bind_eq_ok.mp h
  obtain ⟨_, hlayout, h⟩ := bind_eq_ok.mp h
  cases h
  obtain ⟨_, hfield, hpath⟩ := bind_eq_ok.mp hpath
  obtain ⟨_, -, hpath⟩ := bind_eq_ok.mp hpath
  cases hpath
  rw [require_eq_ok] at hfield hsize hlayout
  exact ⟨⟨hfield.1, hsize.1, hsize.2⟩, hlayout.2.1⟩

theorem checkOrder_ok {previous : Option Entry} (h : checkOrder previous entry = .ok u) :
    ∀ p ∈ previous, p.path < entry.path := by
  intro p hp
  cases hp
  obtain ⟨_, -, h⟩ := bind_eq_ok.mp h
  exact lt_of_comparePaths (require_eq_ok.mp h)

/-- What the parsing loop accepts, from any point on. -/
structure Parsed (remaining off stop : Nat) (previous : Option Entry) (entries : List Entry) : Prop where
  length : entries.length = remaining
  consecutive : Consecutive off entries stop
  ok : ∀ entry ∈ entries, EntryOk entry
  above : ∀ p ∈ previous, ∀ entry ∈ entries, p.path < entry.path
  increasing : entries.Pairwise fun a b => a.path < b.path

theorem parseEntriesLoop_ok {stop : Nat} :
    ∀ {index off : Nat} {previous : Option Entry} {entries : List Entry},
      parseEntriesLoop stop table remaining index off previous = .ok entries →
      Parsed remaining off stop previous entries := by
  induction remaining with
  | zero =>
    intro index off previous entries h
    obtain ⟨_, hstop, h⟩ := bind_eq_ok.mp h
    cases h
    have hstop : off = stop := require_eq_ok.mp hstop
    exact ⟨rfl, hstop, nofun, nofun, .nil⟩
  | succ remaining ih =>
    intro index off previous entries h
    obtain ⟨entry, hentry, h⟩ := bind_eq_ok.mp h
    obtain ⟨_, horder, h⟩ := bind_eq_ok.mp h
    obtain ⟨_, -, h⟩ := bind_eq_ok.mp h
    obtain ⟨rest, hrest, h⟩ := bind_eq_ok.mp h
    cases h
    obtain ⟨hok, hoff⟩ := parseEntry_ok hentry
    have hprevious := checkOrder_ok horder
    have hparsed := ih hrest
    have hbelow := hparsed.above entry rfl
    rw [hoff] at hparsed
    exact
      { length := by rw [length_cons, hparsed.length]
        consecutive := ⟨hoff, hparsed.consecutive⟩
        ok := forall_mem_cons.mpr ⟨hok, hparsed.ok⟩
        above := fun p hp => forall_mem_cons.mpr
          ⟨hprevious p hp, fun e he => List.lt_trans (hprevious p hp) (hbelow e he)⟩
        increasing := .cons hbelow hparsed.increasing }

/-! ### Reads -/

theorem operate_eq_ok (h : (Session.operate : Session Path Err ρ Unit) m = (.ok u, m')) :
    m' = m.moved := by
  unfold Session.operate at h
  split at h
  · cases h
  · cases h
    rfl

theorem look_eq_ok {file : Option (List UInt8)}
    (h : (Session.look path : Session Path Err ρ _) m = (.ok file, m')) :
    m' = m.moved ∧ file = m.moved.files path := by
  obtain ⟨_, t, hoperate, hread⟩ := bind_eq_ok.mp h
  have ht := operate_eq_ok hoperate
  cases hread
  exact ⟨ht, by rw [ht]⟩

theorem contents_eq_ok (h : (contents path : Session Path Err ρ _) m = (.ok bytes, m')) :
    m' = m.moved ∧ m.moved.files path = some bytes := by
  obtain ⟨file, t, hlook, h⟩ := bind_eq_ok.mp h
  obtain ⟨rfl, rfl⟩ := look_eq_ok hlook
  cases hfile : m.moved.files path with
  | none =>
    rw [hfile] at h
    cases h
  | some c =>
    rw [hfile] at h
    obtain ⟨rfl, rfl⟩ := pure_eq_ok.mp h
    exact ⟨rfl, rfl⟩

/-- What a successful read saw. -/
theorem readFileRangeAt_eq_ok
    (h : (readFileRangeAt path offset size : Session Path Err ρ _) m = (.ok bytes, m')) :
    m' = m.moved ∧ ∃ contents, m.moved.files path = some contents
      ∧ bytes = (contents.drop offset).take size := by
  obtain ⟨c, t, hcontents, h⟩ := bind_eq_ok.mp h
  obtain ⟨rfl, hfile⟩ := contents_eq_ok hcontents
  obtain ⟨rfl, rfl⟩ := pure_eq_ok.mp h
  exact ⟨rfl, c, hfile, rfl⟩

theorem readExact_eq_ok (h : (readExact path offset size : Reading ρ _) m = (.ok bytes, m')) :
    m' = m.moved ∧ bytes.length = size ∧ ∃ contents, m.moved.files path = some contents
      ∧ bytes = (contents.drop offset).take size := by
  obtain ⟨c, t, hread, h⟩ := bind_eq_ok.mp h
  obtain ⟨_, hlength, h⟩ := lift_bind_eq_ok.mp h
  obtain ⟨rfl, rfl⟩ := pure_eq_ok.mp h
  obtain ⟨hmoved, hcontents⟩ := readFileRangeAt_eq_ok (mapError_eq_ok.mp hread)
  exact ⟨hmoved, require_eq_ok.mp hlength, hcontents⟩

theorem checkExactFileSize_eq_ok {parsed : Header}
    (h : (checkExactFileSize path parsed : Reading ρ _) m = (.ok u, m')) :
    m' = m.moved ∧ ∃ contents, m.moved.files path = some contents
      ∧ contents.length ≤ parsed.totalSize := by
  obtain ⟨bytes, t, hread, h⟩ := bind_eq_ok.mp h
  obtain ⟨hempty, rfl⟩ := lift_eq_ok.mp h
  obtain ⟨hmoved, c, hfile, hbytes⟩ := readFileRangeAt_eq_ok (mapError_eq_ok.mp hread)
  refine ⟨hmoved, c, hfile, ?_⟩
  rw [require_eq_ok.mp hempty] at hbytes
  have := congrArg length hbytes
  rw [length_take, length_drop, length_nil] at this
  omega

/-- Nobody touches the file, and it holds the contents. -/
structure Still (path : Path) (contents : List UInt8) (m : Machine Path Err ρ) : Prop where
  holds : m.files path = some contents
  kept : ∀ n files, files path = some contents → m.outside n files path = some contents

variable {contents : List UInt8}

theorem Still.moved (h : Still path contents m) :
    Still path contents m.moved := ⟨h.kept _ _ h.holds, h.kept⟩

/-- Every read sees the contents. -/
theorem Still.seen {seen : List UInt8} (h : Still path contents m)
    (hseen : m.moved.files path = some seen) : seen = contents :=
  some.inj (hseen.symm.trans h.moved.holds)

/-- Any number of reads later. -/
inductive Later (m : Machine Path Err ρ) : Machine Path Err ρ → Prop
  | refl : Later m m
  | moved {m' : Machine Path Err ρ} : Later m m' → Later m m'.moved

theorem Later.still (h : Later m m') (hm : Still path contents m) : Still path contents m' := by
  induction h with
  | refl => exact hm
  | moved _ ih => exact ih.moved

/-- A payload has the size its entry states, and is what stands there if nothing moves. -/
theorem readPayload_eq_ok :
    ∀ {offset remaining : Nat} {payload : List UInt8} {m0 m m' : Machine Path Err ρ},
      Later m0 m → remaining ≤ fuel →
      readPayload path fuel offset remaining m = (.ok payload, m') →
      Later m0 m' ∧ payload.length = remaining
        ∧ ∀ contents, Still path contents m0 → payload = (contents.drop offset).take remaining := by
  induction fuel with
  | zero =>
    intro offset remaining payload m0 m m' hm hfuel h
    obtain ⟨rfl, rfl⟩ := pure_eq_ok.mp h
    have hzero : remaining = 0 := by omega
    subst hzero
    exact ⟨hm, rfl, fun _ _ => by rw [take_zero]⟩
  | succ fuel ih =>
    intro offset remaining payload m0 m m' hm hfuel h
    rw [readPayload] at h
    split at h
    · rename_i hzero
      obtain ⟨rfl, rfl⟩ := pure_eq_ok.mp h
      subst hzero
      exact ⟨hm, rfl, fun _ _ => by rw [take_zero]⟩
    obtain ⟨bytes, t, hread, h⟩ := bind_eq_ok.mp h
    obtain ⟨rest, u, hrest, h⟩ := bind_eq_ok.mp h
    obtain ⟨rfl, rfl⟩ := pure_eq_ok.mp h
    obtain ⟨rfl, hlength, seen, hseen, hbytes⟩ := readExact_eq_ok hread
    have hchunk : min remaining ioBufferSize ≠ 0 := by unfold ioBufferSize; omega
    obtain ⟨hlater, hrestLength, hstill⟩ := ih hm.moved (by omega) hrest
    refine ⟨hlater, by rw [length_append]; omega, ?_⟩
    intro contents hcontents
    rw [hstill contents hcontents, hbytes, (hm.still hcontents).seen hseen, ← drop_drop, ← take_add]
    congr 1
    omega

/-! ### Packages -/

/-- What is known of an accepted package and the payloads that were hashed. -/
structure Accepted (crypto : Crypto) (installed : Base) (package : Package)
    (payloads : List (List UInt8)) : Prop where
  header_length : package.header.length = headerSize
  table_length : package.table.length = entrySize * package.entries.length
  signature_length : package.signature.length = signatureSize
  /-- The entries are those of the table. -/
  entries : parseEntries package.parsed (bufferOf package.table) = .ok package.entries
  count : package.entries.length = package.parsed.entryCount
  ok : ∀ entry ∈ package.entries, EntryOk entry
  /-- The payloads lie between the table and the signature, one after the other. -/
  consecutive : Consecutive (headerSize + entrySize * package.entries.length) package.entries
    package.parsed.signatureOffset
  total : package.parsed.totalSize = package.parsed.signatureOffset + signatureSize
  /-- The paths increase. -/
  increasing : package.entries.Pairwise fun a b => a.path < b.path
  /-- The payloads are those the entries describe. -/
  described : List.Forall₂ (fun (entry : Entry) payload =>
    payload.length = entry.payloadSize ∧ crypto.sha256 payload = entry.payloadHash)
    package.entries payloads
  keyAllowed : Trust.keyAllowed package.parsed.keyId package.parsed.target.epoch = true
  /-- Header, table and payloads were signed. -/
  signed : crypto.ed25519 package.signature Trust.publicKey (signedMessage package payloads) = true
  base : package.parsed.base = installed
  newer : package.parsed.target.version.compare installed.version = .gt
  allowed : ∀ entry ∈ package.entries, (targetId entry.path).isSome = true

/-- What `loadStructure` accepts, and what it saw. -/
structure Loaded (path : Path) (m0 : Machine Path Err ρ) (package : Package) : Prop where
  header_length : package.header.length = headerSize
  table_length : package.table.length = package.parsed.manifestSize
  signature_length : package.signature.length = signatureSize
  entries : parseEntries package.parsed (bufferOf package.table) = .ok package.entries
  layout : package.parsed.manifestSize = package.parsed.entryCount * entrySize
    ∧ package.parsed.payloadOffset = headerSize + package.parsed.entryCount * entrySize
    ∧ package.parsed.totalSize = package.parsed.signatureOffset + signatureSize
  /-- The second read was at the end that the header states, and nothing was there. -/
  ended : ∃ contents, m0.moved.moved.files path = some contents
    ∧ contents.length ≤ package.parsed.totalSize
  still : ∀ contents, Still path contents m0 →
    package.header = contents.take headerSize
      ∧ package.table = (contents.drop headerSize).take package.parsed.manifestSize
      ∧ package.signature = (contents.drop package.parsed.signatureOffset).take signatureSize

theorem loadStructure_eq_ok (h : (loadStructure path : Reading ρ _) m = (.ok package, m')) :
    Later m m' ∧ Loaded path m package := by
  obtain ⟨header, t1, hread1, h⟩ := bind_eq_ok.mp h
  obtain ⟨_, -, h⟩ := lift_bind_eq_ok.mp h
  obtain ⟨_, -, h⟩ := lift_bind_eq_ok.mp h
  obtain ⟨_, hlayout, h⟩ := lift_bind_eq_ok.mp h
  obtain ⟨_, t2, hsize, h⟩ := bind_eq_ok.mp h
  obtain ⟨table, t3, hread2, h⟩ := bind_eq_ok.mp h
  obtain ⟨entries, hentries, h⟩ := lift_bind_eq_ok.mp h
  obtain ⟨signature, t4, hread3, h⟩ := bind_eq_ok.mp h
  obtain ⟨rfl, rfl⟩ := pure_eq_ok.mp h
  obtain ⟨rfl, hheaderLength, c1, hc1, hheader⟩ := readExact_eq_ok hread1
  obtain ⟨rfl, hended⟩ := checkExactFileSize_eq_ok hsize
  obtain ⟨rfl, htableLength, c2, hc2, htable⟩ := readExact_eq_ok hread2
  obtain ⟨rfl, hsignatureLength, c3, hc3, hsignature⟩ := readExact_eq_ok hread3
  rw [validateHeaderLayout, require_eq_ok] at hlayout
  refine ⟨.moved (.moved (.moved (.moved .refl))),
    { header_length := hheaderLength, table_length := htableLength
      signature_length := hsignatureLength, entries := hentries
      layout := ⟨hlayout.2.2.2.2.2.1, hlayout.2.2.2.2.2.2.1, hlayout.2.2.2.2.2.2.2.2.1⟩
      ended := hended, still := ?_ }⟩
  intro contents hcontents
  -- All three reads saw the same contents.
  obtain rfl := hcontents.seen hc1
  obtain rfl := hcontents.moved.moved.seen hc2
  obtain rfl := hcontents.moved.moved.moved.seen hc3
  exact ⟨hheader, htable, hsignature⟩

theorem targetExists_eq_ok (h : (targetExists entry : Reading ρ Unit) m = (.ok u, m')) :
    (targetId entry.path).isSome = true := by
  cases htarget : targetId entry.path with
  | none =>
    rw [targetExists, htarget] at h
    cases h
  | some target => rfl

/-- The payloads of a package whose file stayed the same. -/
theorem flatten_of_consecutive {entries : List Entry} :
    ∀ {off stop : Nat} {payloads : List (List UInt8)}, Consecutive off entries stop →
      List.Forall₂ (fun (entry : Entry) payload =>
        payload = (contents.drop entry.payloadOffset).take entry.payloadSize) entries payloads →
      off ≤ stop ∧ payloads.flatten = (contents.drop off).take (stop - off) := by
  induction entries with
  | nil =>
    intro off stop payloads hcons hall
    cases hall
    subst hcons
    exact ⟨le_refl _, by rw [Nat.sub_self]; rfl⟩
  | cons entry entries ih =>
    intro off stop payloads hcons hall
    obtain ⟨rfl, hcons⟩ := hcons
    cases hall with
    | cons hpayload hall =>
      obtain ⟨hle, hflat⟩ := ih hcons hall
      refine ⟨by omega, ?_⟩
      rw [flatten_cons, hflat, hpayload, ← drop_drop, ← take_add]
      congr 1
      omega

/-- What a success of the verifier says: of the package, of the end of the file when it was looked
at, and of a file that stayed the same. -/
structure Verified (crypto : Crypto) (installed : Base) (path : Path) (m0 : Machine Path Err ρ)
    (package : Package) (payloads : List (List UInt8)) : Prop where
  accepted : Accepted crypto installed package payloads
  ended : ∃ contents, m0.moved.moved.files path = some contents
    ∧ contents.length ≤ package.parsed.totalSize
  still : ∀ contents, Still path contents m0 →
    contents = package.header ++ package.table ++ payloads.flatten ++ package.signature

/-- **A package is accepted only if its pieces tile it.** -/
theorem verifyInternal_eq_ok {crypto : Crypto} {installed : Installed}
    (h : (verifyInternal crypto installed path : Reading ρ _) m = (.ok package, m')) :
    ∃ base, installed = some base ∧ ∃ payloads, Verified crypto base path m package payloads := by
  obtain ⟨package', t, hload, h⟩ := bind_eq_ok.mp h
  obtain ⟨_, u, hverify, h⟩ := bind_eq_ok.mp h
  obtain ⟨rfl, -⟩ := pure_eq_ok.mp h
  obtain ⟨hlater, loaded⟩ := loadStructure_eq_ok hload
  obtain ⟨payloads, v, hhash, hverify⟩ := bind_eq_ok.mp hverify
  obtain ⟨_, hkey, hverify⟩ := lift_bind_eq_ok.mp hverify
  obtain ⟨_, hsigned, happlicable⟩ := lift_bind_eq_ok.mp hverify
  obtain ⟨_, -, happlicable⟩ := lift_bind_eq_ok.mp happlicable
  cases installed with
  | none => cases happlicable
  | some base =>
    obtain ⟨_, hbase, happlicable⟩ := lift_bind_eq_ok.mp happlicable
    obtain ⟨_, hnewer, hallowed⟩ := lift_bind_eq_ok.mp happlicable
    obtain ⟨payloads', w, hcollect, hhash⟩ := bind_eq_ok.mp hhash
    obtain ⟨_, -, hhash⟩ := lift_bind_eq_ok.mp hhash
    obtain ⟨rfl, rfl⟩ := pure_eq_ok.mp hhash
    -- Every payload was read after the structure was.
    have hpayloads := (collect_eq_ok
      (R := fun entry payload => payload.length = entry.payloadSize
        ∧ crypto.sha256 payload = entry.payloadHash
        ∧ ∀ contents, Still path contents m →
          payload = (contents.drop entry.payloadOffset).take entry.payloadSize)
      (fun entry payload s s' hs hrun => by
        obtain ⟨payload', x, hread, hrun⟩ := bind_eq_ok.mp hrun
        obtain ⟨_, hhash, hrun⟩ := lift_bind_eq_ok.mp hrun
        obtain ⟨rfl, rfl⟩ := pure_eq_ok.mp hrun
        obtain ⟨hlater', hlength, hstill⟩ := readPayload_eq_ok hs (le_refl _) hread
        exact ⟨hlater', hlength, require_eq_ok.mp hhash, hstill⟩) hlater hcollect).2
    have hparsed := parseEntriesLoop_ok loaded.entries
    obtain ⟨hmanifest, hpayloadOffset, htotal⟩ := loaded.layout
    have hcount : package'.parsed.entryCount * entrySize = entrySize * package'.entries.length := by
      rw [hparsed.length, mul_comm]
    refine ⟨base, rfl, payloads',
      { accepted :=
          { header_length := loaded.header_length
            table_length := by rw [loaded.table_length, hmanifest, hcount]
            signature_length := loaded.signature_length, entries := loaded.entries
            count := hparsed.length, ok := hparsed.ok
            consecutive := by rw [← hcount, ← hpayloadOffset]; exact hparsed.consecutive
            total := htotal, increasing := hparsed.increasing
            described := hpayloads.imp fun _ _ hp => ⟨hp.1, hp.2.1⟩
            keyAllowed := require_eq_ok.mp hkey, signed := require_eq_ok.mp hsigned
            base := require_eq_ok.mp hbase
            newer := by rw [← require_eq_ok.mp hbase]; exact (require_eq_ok.mp hnewer).1
            allowed := forEach_eq_ok (fun _ _ _ hrun => targetExists_eq_ok hrun) hallowed }
        ended := loaded.ended, still := ?_ }⟩
    intro contents hcontents
    obtain ⟨hheader, htable, hsignature⟩ := loaded.still contents hcontents
    obtain ⟨hle, hflat⟩ := flatten_of_consecutive hparsed.consecutive
      (hpayloads.imp fun _ _ hp => hp.2.2 contents hcontents)
    obtain ⟨seen, hseen, hend⟩ := loaded.ended
    rw [hcontents.moved.seen hseen] at hend
    -- The pieces are consecutive ranges, and the last one reaches the end.
    have hlast : (contents.drop package'.parsed.signatureOffset).take signatureSize
        = contents.drop package'.parsed.signatureOffset := by
      apply take_of_length_le
      rw [length_drop]
      omega
    have hrest : contents.drop package'.parsed.signatureOffset
        = (contents.drop package'.parsed.payloadOffset).drop
          (package'.parsed.signatureOffset - package'.parsed.payloadOffset) := by
      rw [drop_drop]
      congr 1
      omega
    have hmiddle : contents.drop package'.parsed.payloadOffset
        = (contents.drop headerSize).drop package'.parsed.manifestSize := by
      rw [drop_drop, hpayloadOffset, hmanifest]
    rw [hheader, htable, hflat, hsignature, hlast, append_assoc, append_assoc, hrest,
      take_append_drop, hmiddle, take_append_drop, take_append_drop]

end ZephyrOS.Zupd
