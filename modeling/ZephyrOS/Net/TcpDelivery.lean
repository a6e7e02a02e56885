import Mathlib.Algebra.Group.Nat.Defs
import ZephyrOS.Net.TcpCalls
import ZephyrOS.Lib.InOrder

/-!
# TCP delivers the stream in order

The other side sends a stream `S`, cut into segments anyhow; segments get lost, come twice
or late. What a consumer is told of it is a reading of `S` in order (`Lib.InOrder`), and
`receive_next` always stands where that reading does. The invariant is `Receiver`; a segment
is taken only if its sequence number is `receive_next`, and as the stream is far shorter than
the number space, that makes its offset the reader's.
-/

namespace ZephyrOS.Tcp

open List

variable {env : Env} {i k : Nat} {t t' t'' : State} {S : List UInt8} {irs h : UInt32} {n : Nat}
  {e : Emission} {segment : Segment} {log : List Emission} {ended : Bool} {packet : Packet}

/-! ### Positions in the stream -/

/-- The sequence number of offset `n` of a stream after the initial number `irs`. -/
def position (irs : UInt32) (n : Nat) : UInt32 := irs + 1 + UInt32.ofNat n

theorem position_add (m n : Nat) : position irs m + UInt32.ofNat n = position irs (m + n) := by
  unfold position
  rw [UInt32.add_assoc, UInt32.ofNat_add]

theorem position_inj {m : Nat} (hm : m < 2 ^ 32) (hn : n < 2 ^ 32)
    (heq : position irs m = position irs n) : m = n := by
  have hnat := congrArg UInt32.toNat ((UInt32.add_right_inj _).mp heq)
  rwa [UInt32.toNat_ofNat', UInt32.toNat_ofNat', Nat.mod_eq_of_lt hm, Nat.mod_eq_of_lt hn] at hnat

/-! ### What the consumer was told -/

/-- What an event says of the stream to the consumer of the connection `h`. -/
def noticeOf (h : UInt32) (e : Emission) : Option (Lib.Notice UInt8) :=
  if e.handle ≠ h then none
  else
    match e.event with
    | .data => if e.accepted then some (.data e.data) else none
    | .eof => some .eof
    | _ => none

def notices (h : UInt32) (log : List Emission) : List (Lib.Notice UInt8) :=
  log.filterMap (noticeOf h)

/-- The bytes the consumer of the connection `h` took. -/
def delivered (h : UInt32) (log : List Emission) : List UInt8 := Lib.content (notices h log)

theorem noticeOf_routine (hr : Routine e) : noticeOf h e = none := by
  unfold noticeOf
  split
  · rfl
  split
  · rename_i hdata
    rw [hr.2 hdata]
    rfl
  · rename_i heof
    exact absurd heof hr.1
  · rfl

theorem notices_append (log log' : List Emission) :
    notices h (log ++ log') = notices h log ++ notices h log' := filterMap_append

theorem notices_routine {es : List Emission} (hes : ∀ e ∈ es, e.handle = h → Routine e) :
    notices h es = [] := by
  rw [notices, filterMap_eq_nil_iff]
  intro e he
  by_cases hh : e.handle = h
  · exact noticeOf_routine (hes e he hh)
  · unfold noticeOf
    rw [if_pos hh]

theorem noticeOf_eof : noticeOf h e = some .eof ↔ e.handle = h ∧ e.event = .eof := by
  unfold noticeOf
  constructor
  · intro heq
    split at heq
    · cases heq
    rename_i hh
    refine ⟨not_not.mp hh, ?_⟩
    split at heq
    · split at heq <;> cases heq
    · assumption
    · cases heq
  · rintro ⟨hh, he⟩
    rw [if_neg (not_not.mpr hh), he]

/-! ### The segments of a stream -/

/-- **The segments the other side sends of `S`**: any piece of it, with the FIN only where `S`
ends, and after that only bare acknowledgments. -/
inductive SegmentOf (S : List UInt8) (irs : UInt32) (segment : Segment) : Prop where
  | piece (offset : Nat) (hsyn : hasFlag segment.flags flagSyn = false)
      (hrst : hasFlag segment.flags flagRst = false)
      (hseq : segment.sequence = position irs offset)
      (hlen : offset + segment.payload.length ≤ S.length)
      (hdata : segment.payload = (S.drop offset).take segment.payload.length)
      (hfin : hasFlag segment.flags flagFin = true → offset + segment.payload.length = S.length)
  | afterFin (hsyn : hasFlag segment.flags flagSyn = false)
      (hrst : hasFlag segment.flags flagRst = false)
      (hseq : segment.sequence = position irs (S.length + 1)) (hdata : segment.payload = [])
      (hfin : hasFlag segment.flags flagFin = false)

/-- A packet for the connection in slot `k` carries a segment of `S`; others carry anything. -/
def Admits (k : Nat) (S : List UInt8) (irs : UInt32) (packet : Packet) (t : State) : Prop :=
  ∀ segment, parseSegment packet = .ok segment →
    checksum packet.sourceIp packet.destinationIp packet.payload = 0 →
    (t.connections k).matchesTuple packet.sourceIp segment.destinationPort segment.sourcePort →
    SegmentOf S irs segment

/-- **A run with the other side sending `S`**: its segments, in any order, any number of times
or never, between any calls. -/
inductive Run (k : Nat) (S : List UInt8) (irs : UInt32) (t : State) : State → Prop where
  | refl : Run k S irs t t
  | send {u : State} (h : Run k S irs t u) (env : Env) (handle : UInt32) (data : List UInt8) :
      Run k S irs t (send env handle data u).2
  | setReceiveWindow {u : State} (h : Run k S irs t u) (env : Env) (handle : UInt32)
      (receiveWindow : Nat) : Run k S irs t (setReceiveWindow env handle receiveWindow u).2
  | close {u : State} (h : Run k S irs t u) (env : Env) (handle : UInt32) :
      Run k S irs t (close env handle u).2
  | maintain {u : State} (h : Run k S irs t u) (env : Env) : Run k S irs t (maintain env u).2
  | inbound {u : State} (h : Run k S irs t u) (env : Env) (packet : Packet)
      (hadmits : Admits k S irs packet u) : Run k S irs t (handleIpv4 env packet u)

/-! ### The invariant -/

/-- **Where the receiving side of a connection stands.** The consumer of `h` was told `log`,
with the end in it or not. -/
structure Receiver (k : Nat) (h : UInt32) (S : List UInt8) (irs : UInt32) (log : List Emission)
    (ended : Bool) (t : State) : Prop where
  inOrder : Lib.InOrder S (notices h log) ended
  handle : (t.connections k).active → t.makeHandle k = h
  callback : (t.connections k).active → (t.connections k).callback
  opened : (t.connections k).active → (t.connections k).state ≠ .synSent
  /-- The next number expected is that of the reader's place. -/
  receiveNext : (t.connections k).active → (t.connections k).receiveNext
    = position irs ((delivered h log).length + ended.toNat)

/-- The invariant at some later point of the log. -/
def Later (k : Nat) (h : UInt32) (S : List UInt8) (irs : UInt32) (log : List Emission)
    (t t' : State) : Prop :=
  ∃ es ended, t'.events = t.events ++ es ∧ Receiver k h S irs (log ++ es) ended t'

theorem Receiver.later (hr : Receiver k h S irs log ended t) : Later k h S irs log t t :=
  ⟨[], ended, by simp, by simpa using hr⟩

theorem Later.trans (hl : Later k h S irs log t t')
    (hnext : ∀ log ended, Receiver k h S irs log ended t' → Later k h S irs log t' t'') :
    Later k h S irs log t t'' := by
  obtain ⟨es, ended, hes, hr⟩ := hl
  obtain ⟨es', ended', hes', hr'⟩ := hnext _ _ hr
  exact ⟨es ++ es', ended', by rw [hes', hes, append_assoc], by rwa [← append_assoc]⟩

/-- What leaves the receiving side alone keeps the invariant. -/
theorem Receiver.aside (hr : Receiver k h S irs log ended t) (hslot : h.toNat % 256 = k + 1)
    (ha : Aside k t t') : Later k h S irs log t t' := by
  obtain ⟨es, hes, hall⟩ := ha.log
  have hnone : notices h es = [] := notices_routine fun e he hh => hall e he (hh ▸ hslot)
  have hsame : notices h (log ++ es) = notices h log := by
    rw [notices_append, hnone, append_nil]
  refine ⟨es, ended, hes, ⟨hsame ▸ hr.inOrder, ?_, ?_, ?_, ?_⟩⟩
  all_goals
    intro hact
    have hq := ha.slot hact
    have hbefore : (t.connections k).active = true := hq.active ▸ hact
  · rw [makeHandle_congr hq.generation]
    exact hr.handle hbefore
  · rw [hq.callback]
    exact hr.callback hbefore
  · exact fun hs => hr.opened hbefore (hq.synSent hs)
  · rw [hq.receiveNext, delivered, hsame]
    exact hr.receiveNext hbefore

/-! ### A segment for the connection -/

/-- Slot `i` moved on by `n`, and its consumer was told `e`. -/
structure Delivers (i : Nat) (n : Nat) (e : Emission) (t t' : State) : Prop where
  slot : Kept (t.connections i) (t'.connections i)
  synSent : (t'.connections i).state = .synSent → (t.connections i).state = .synSent
  receiveNext : (t'.connections i).receiveNext = (t.connections i).receiveNext + UInt32.ofNat n
  events : t'.events = t.events ++ [e]

/-- `tcp_accept_payload` takes a segment that is next in order and delivers it, or it leaves
the receiving side alone. -/
theorem acceptPayload_cases (hcb : (t.connections i).callback = true) :
    Calm i t (acceptPayload env i segment t).2
      ∨ (segment.payload ≠ [] ∧ segment.sequence = (t.connections i).receiveNext
        ∧ Delivers i segment.payload.length
          ⟨t.makeHandle i, .data, segment.payload, none, true⟩ t
          (acceptPayload env i segment t).2) := by
  unfold acceptPayload
  dsimp only
  split
  · exact .inl .refl
  rename_i hne
  split
  · exact .inl (sendAck_calm env i t)
  rename_i hseq
  split
  · exact .inl (sendAck_calm env i t)
  unfold emit
  rw [hcb]
  cases hanswer : env.answer t.events.length with
  | error e =>
    -- the consumer refused: it was told, but has not taken anything
    refine .inl (.trans ?_ fail_calm)
    refine ⟨fun j _ => rfl, Quiet.refl _, _, rfl, ?_⟩
    intro e he
    rw [mem_singleton] at he
    subst he
    exact ⟨rfl, by simp, fun _ => rfl⟩
  | ok _ =>
    refine .inr ⟨hne, not_not.mp hseq, ?_⟩
    simp only [Bool.not_true, Bool.false_eq_true, if_false]
    generalize hu : (State.modify _ i _) = u
    have hack := sendAck_calm env i u
    have hevents := sendAck_events env i u
    have hself : u.connections i = { t.connections i with
        receiveNext := (t.connections i).receiveNext + UInt32.ofNat segment.payload.length
        localWindow := (t.connections i).localWindow - segment.payload.length } := by
      rw [← hu, modify_self]
      rfl
    refine ⟨Kept.trans ?_ hack.slot.toKept, fun hs => ?_, ?_, ?_⟩
    · rw [hself]
      exact ⟨rfl, rfl, rfl, rfl, rfl, rfl⟩
    · have hs' := hack.slot.synSent hs
      rwa [hself] at hs'
    · rw [hack.slot.receiveNext, hself]
    · rw [hevents, ← hu]
      rfl

theorem finReceived_synSent {c : Connection} (h : (finReceived env c).state = .synSent) :
    c.state = .synSent := by
  unfold finReceived at h
  split at h
  · cases h
  · split at h <;> cases h
  · cases h
  · exact h

/-- The same of `tcp_accept_fin`. -/
theorem acceptFin_cases (hcb : (t.connections i).callback = true) :
    Calm i t (acceptFin env i segment t)
      ∨ (hasFlag segment.flags flagFin = true
        ∧ segment.sequence + UInt32.ofNat segment.payload.length = (t.connections i).receiveNext
        ∧ ∃ accepted, Delivers i 1 ⟨t.makeHandle i, .eof, [], none, accepted⟩ t
          (acceptFin env i segment t)) := by
  unfold acceptFin
  dsimp only
  split
  · exact .inl .refl
  rename_i hfin
  split
  · exact .inl (sendAck_calm env i t)
  rename_i hseq
  refine .inr ⟨by simpa using hfin, not_not.mp hseq, ?_⟩
  generalize hu : (t.modify i fun c => { c with receiveNext := c.receiveNext + 1 }) = u
  have hself : u.connections i
      = { t.connections i with receiveNext := (t.connections i).receiveNext + 1 } := by
    rw [← hu, modify_self]
  have hack := sendAck_calm env i u
  have hevents : (sendAck env i u).2.events = t.events := by
    rw [sendAck_events, ← hu]
    rfl
  generalize (sendAck env i u).2 = v at hack hevents
  have hkept : Kept (t.connections i) (v.connections i) := by
    refine Kept.trans ?_ hack.slot.toKept
    rw [hself]
    exact ⟨rfl, rfl, rfl, rfl, rfl, rfl⟩
  have hcb' : (v.connections i).callback = true := hkept.callback.trans hcb
  refine ⟨(env.answer v.events.length).isOk, ?_⟩
  unfold emit
  rw [hcb']
  simp only [Bool.not_true, Bool.false_eq_true, if_false]
  have hfinal := finReceived_kept env (v.connections i)
  refine ⟨?_, fun hs => ?_, ?_, ?_⟩
  · rw [modify_self]
    exact hkept.trans hfinal.1
  · rw [modify_self] at hs
    have hs' := hack.slot.synSent (finReceived_synSent hs)
    rwa [hself] at hs'
  · rw [modify_self]
    exact hfinal.2.trans (hack.slot.receiveNext.trans (by rw [hself]; rfl))
  · rw [modify_events, State.logEvent, hevents, makeHandle_congr hkept.generation]

/-- A delivery moves the reader on. -/
theorem Receiver.delivers {notice : Lib.Notice UInt8} {ended' : Bool}
    (hr : Receiver k h S irs log ended t) (hact : (t.connections k).active = true)
    (hd : Delivers k n e t t') (hnotice : noticeOf h e = some notice)
    (hord : Lib.InOrder S (notices h log ++ [notice]) ended')
    (hn : (delivered h log).length + ended.toNat + n
    = (Lib.content (notices h log ++ [notice])).length + ended'.toNat) :
    Later k h S irs log t t' := by
  have hlog : notices h (log ++ [e]) = notices h log ++ [notice] := by
    simp [notices, hnotice]
  refine ⟨[e], ended', hd.events, ⟨hlog ▸ hord, fun _ => ?_, fun _ => ?_, fun _ hs => ?_, fun _ => ?_⟩⟩
  · rw [makeHandle_congr hd.slot.generation]
    exact hr.handle hact
  · rw [hd.slot.callback]
    exact hr.callback hact
  · exact hr.opened hact (hd.synSent hs)
  · rw [hd.receiveNext, hr.receiveNext hact, position_add, hn, delivered, hlog]

/-- A number of the stream that is the next expected one: the end was not told yet, and it is
that of the reader's place. -/
theorem Receiver.place (hr : Receiver k h S irs log ended t) (hS : S.length < 2 ^ 31)
    (hact : (t.connections k).active = true) (hn : n ≤ S.length)
    (hseq : position irs n = (t.connections k).receiveNext) :
    ended = false ∧ (delivered h log).length = n := by
  have hle := hr.inOrder.length_le
  have hended := Bool.toNat_le ended
  rw [hr.receiveNext hact] at hseq
  have hplace := position_inj (by omega) (by rw [delivered]; omega) hseq
  cases ended with
  | true =>
    -- nothing of `S` lies after its end
    rw [delivered, hr.inOrder.complete, Bool.toNat_true] at hplace
    omega
  | false => exact ⟨rfl, hplace.symm⟩

section

variable (hr : Receiver k h S irs log ended t) (hslot : h.toNat % 256 = k + 1)
  (hk : k < connectionCapacity) (hS : S.length < 2 ^ 31)
  (hact : (t.connections k).active = true) (hseg : SegmentOf S irs segment)
include hr hslot hk hS hact hseg

/-- **`tcp_accept_payload` keeps the invariant.** -/
theorem Receiver.on_payload : Later k h S irs log t (acceptPayload env k segment t).2 := by
  rcases acceptPayload_cases (hr.callback hact) with hcalm | ⟨hne, hseq, hd⟩
  · exact hr.aside hslot (hcalm.orEnds.aside hk)
  rw [hr.handle hact] at hd
  cases hseg with
  | afterFin _ _ _ hdata _ => exact absurd hdata hne
  | piece offset _ _ hoff hlen hdata _ =>
    obtain ⟨rfl, hplace⟩ := hr.place hS hact (by omega) (hoff.symm.trans hseq)
    have hord := hr.inOrder.segment segment.payload.length hplace.symm
    rw [← hdata] at hord
    refine hr.delivers hact hd ?_ hord ?_
    · simp [noticeOf]
    · simp [delivered]

/-- **`tcp_accept_fin` keeps the invariant**: a FIN is in order only after all of `S`. -/
theorem Receiver.on_fin : Later k h S irs log t (acceptFin env k segment t) := by
  rcases acceptFin_cases (hr.callback hact) with hcalm | ⟨hfin, hseq, _, hd⟩
  · exact hr.aside hslot (hcalm.orEnds.aside hk)
  rw [hr.handle hact] at hd
  cases hseg with
  | afterFin _ _ _ _ hno => exact absurd hfin (by simp [hno])
  | piece offset _ _ hoff hlen _ hend =>
    rw [hoff, position_add, hend hfin] at hseq
    obtain ⟨rfl, hplace⟩ := hr.place hS hact (Nat.le_refl _) hseq
    have hall : Lib.content (notices h log) = S :=
      hr.inOrder.content_prefix.eq_of_length hplace
    refine hr.delivers hact hd ?_ (Lib.InOrder.eof hr.inOrder hall) ?_
    · simp [noticeOf]
    · simp [delivered]

/-- **A segment of the stream keeps the invariant**, whatever state the connection is in. -/
theorem Receiver.on_segment : Later k h S irs log t (processConnection env k segment t) := by
  have hcalm : ∀ {u : State}, CalmOrEnds k t u → Later k h S irs log t u :=
    fun hu => hr.aside hslot (hu.aside hk)
  have hflags : hasFlag segment.flags flagSyn = false ∧ hasFlag segment.flags flagRst = false := by
    cases hseg with
    | piece _ hsyn hrst => exact ⟨hsyn, hrst⟩
    | afterFin hsyn hrst => exact ⟨hsyn, hrst⟩
  unfold processConnection
  have hnote := noteActivity_calm env k t
  generalize (t.modify k fun c => { c with lastActivityTick := env.ticks }) = u at hnote
  have hack := hnote.trans (sendAck_calm env k u)
  dsimp only
  split
  · rename_i hsyn
    exact absurd (hnote.slot.synSent hsyn) (hr.opened hact)
  split
  · split
    · refine hcalm (Calm.orEnds (hack.trans ?_))
      exact .modify _ ⟨Kept.mk rfl rfl rfl rfl rfl rfl, rfl, id, id⟩
    · exact hcalm hnote.orEnds
  split
  · exact hcalm hack.orEnds
  -- the segment is the next in order
  unfold processInOrder
  rw [hflags.1, hflags.2]
  simp only [Bool.false_eq_true, if_false]
  split
  · exact hcalm hack.orEnds
  split
  · rename_i heq
    exact hcalm (hnote.trans_ends (processAck_effect heq).1)
  · rename_i heq
    exact hcalm (hnote.trans_ends (processAck_effect heq).1)
  rename_i v heq
  have hv := hnote.trans ((processAck_effect heq).2 (by simp))
  have hactv : (v.connections k).active = true := hv.slot.active.trans hact
  have hdata : Later k h S irs log t (acceptPayload env k segment v).2 :=
    (hcalm hv.orEnds).trans fun _ _ hrv => hrv.on_payload hslot hk hS hactv hseg
  have hactw := (acceptPayload_touches env k segment v).slot.active.trans hactv
  split
  all_goals
    rename_i heq
    rw [heq] at hdata hactw
  · exact hdata
  · exact hdata.trans fun _ _ hrw => hrw.on_fin hslot hk hS hactw hseg

end

/-- **An arriving packet keeps the invariant.** -/
theorem Receiver.on_packet (hr : Receiver k h S irs log ended t)
    (hslot : h.toNat % 256 = k + 1) (hk : k < connectionCapacity) (hS : S.length < 2 ^ 31)
    (hadmits : Admits k S irs packet t) : Later k h S irs log t (handleIpv4 env packet t) := by
  unfold handleIpv4
  split
  · exact hr.later
  rename_i segment hparse
  split
  · exact hr.later
  rename_i hsum
  split
  · obtain ⟨hc, he⟩ := sendRawReset_eq env packet segment t
    exact hr.aside hslot (Aside.of_eq hc he)
  rename_i index hfind
  obtain ⟨hlt, hmatch, hact⟩ := findTuple_some hfind
  by_cases hki : k = index
  · subst hki
    exact hr.on_segment hslot hk hS hact (hadmits segment hparse (not_not.mp hsum) hmatch)
  · exact hr.aside hslot (processConnection_touches.aside hlt hki)

/-- **Every run keeps the invariant.** -/
theorem Run.receiver (hrun : Run k S irs t t') (hr : Receiver k h S irs log ended t)
    (hslot : h.toNat % 256 = k + 1) (hk : k < connectionCapacity) (hS : S.length < 2 ^ 31) :
    Later k h S irs log t t' := by
  have haside : ∀ {u v : State}, Later k h S irs log t u → Aside k u v → Later k h S irs log t v :=
    fun hl ha => hl.trans fun _ _ hr => hr.aside hslot ha
  induction hrun with
  | refl => exact hr.later
  | send _ env handle data ih => exact haside ih send_effect.aside
  | setReceiveWindow _ env handle receiveWindow ih =>
    exact haside ih setReceiveWindow_effect.aside
  | close _ env handle ih => exact haside ih close_effect.aside
  | maintain _ env ih => exact haside ih maintain_aside
  | inbound _ env packet hadmits ih =>
    exact ih.trans fun _ _ hr => hr.on_packet hslot hk hS hadmits

/-! ### From the handshake on -/

/-- What the SYN-ACK that establishes a connection leaves. -/
theorem processSynSent_established (hsyn : (t.connections i).state = .synSent)
    (hest : ((processSynSent env i segment t).connections i).state = .established) :
    ∃ u, Calm i u (processSynSent env i segment t) ∧ u.events = t.events
      ∧ Kept (t.connections i) (u.connections i)
      ∧ (u.connections i).receiveNext = segment.sequence + 1
      ∧ (u.connections i).state = .established := by
  have hquiet : ∀ {u : State}, Calm i t u → (u.connections i).state ≠ .established := by
    intro u hu hstate
    rw [hu.slot.established hstate] at hsyn
    cases hsyn
  unfold processSynSent at hest ⊢
  dsimp only at hest ⊢
  split at hest
  · split at hest
    · exact absurd hest (hquiet fail_calm)
    · exact absurd hest (hquiet .refl)
  split at hest
  · exact absurd hest (hquiet .refl)
  rename_i hrst hok
  rw [if_neg hrst, if_neg hok]
  refine ⟨_, ((sendAck_calm env i _).trans (.emit (by simp) (by simp) _ _ _)).trans
    (.emit (by simp) (by simp) _ _ _), rfl, ?_⟩
  rw [modify_self]
  have hclear := (clearPending_quiet env
    { t.connections i with sendUnacknowledged := segment.acknowledgment }).toKept
  exact ⟨{ hclear with }, rfl, rfl⟩

/-- **The handshake sets the invariant up**, with the number of the SYN-ACK. -/
theorem handleIpv4_established (hserved : Served t)
    (hparse : parseSegment packet = .ok segment) (hsyn : (t.connections k).state = .synSent)
    (hest : ((handleIpv4 env packet t).connections k).state = .established) :
    k < connectionCapacity
      ∧ Later k (t.makeHandle k) S segment.sequence [] t (handleIpv4 env packet t) := by
  have hsame : ∀ {u : State}, u.connections k = t.connections k →
      (u.connections k).state ≠ .established := by
    intro u hu
    rw [hu, hsyn]
    simp
  unfold handleIpv4 at hest ⊢
  rw [hparse] at hest ⊢
  dsimp only at hest ⊢
  split at hest
  · exact absurd hest (hsame rfl)
  rename_i hsum
  rw [if_neg hsum]
  split at hest
  · exact absurd hest (hsame (by rw [(sendRawReset_eq env packet segment t).1]))
  rename_i index hfind
  obtain ⟨hlt, -, hact⟩ := findTuple_some hfind
  by_cases hki : k = index
  case neg =>
    exact absurd hest (hsame (processConnection_touches.others k hki))
  subst hki
  refine ⟨hlt, ?_⟩
  unfold processConnection at hest ⊢
  have hnote := noteActivity_calm env k t
  have hstate : ((t.modify k fun c => { c with lastActivityTick := env.ticks }).connections k).state
      = .synSent := by
    rw [modify_self]
    exact hsyn
  rw [if_pos hstate] at hest ⊢
  obtain ⟨u, hcalm, hevents, hkept, hnext, hopened⟩ := processSynSent_established hstate hest
  have hkept := hnote.slot.toKept.trans hkept
  have hr : Receiver k (t.makeHandle k) S segment.sequence [] false u := by
    refine ⟨.nil, fun _ => makeHandle_congr hkept.generation, fun _ => ?_, fun _ => ?_, fun _ => ?_⟩
    · rw [hkept.callback]
      exact hserved k hact
    · rw [hopened]
      exact nofun
    · rw [hnext]
      exact (UInt32.add_zero _).symm
  obtain ⟨es, ended, hes, hr⟩ := hr.aside (makeHandle_slot hlt) (hcalm.orEnds.aside hlt)
  exact ⟨es, ended, by rw [hes, hevents, modify_events], hr⟩

/-- **In-order delivery.** From the SYN-ACK that establishes a connection on, along any run
in which the other side sends `S`, with the consumer taking and refusing what it likes: what
it took is a prefix of `S`, the next number expected is that of the reader's place (one more
once the FIN was taken), and the end was told only after all of `S`. -/
theorem in_order_delivery {segment : Segment} {packet : Packet} (hS : S.length < 2 ^ 31)
    (hreach : Reachable t) (hsyn : (t.connections k).state = .synSent)
    (hparse : parseSegment packet = .ok segment)
    (hest : ((handleIpv4 env packet t).connections k).state = .established)
    (hrun : Run k S segment.sequence (handleIpv4 env packet t) t') :
    ∃ log, t'.events = t.events ++ log
      ∧ delivered (t.makeHandle k) log <+: S
      ∧ ((t'.connections k).active → (t'.connections k).receiveNext
          = segment.sequence + 1 + UInt32.ofNat ((delivered (t.makeHandle k) log).length
            + if ∃ e ∈ log, e.handle = t.makeHandle k ∧ e.event = .eof then 1 else 0))
      ∧ ∀ before e after, log = before ++ e :: after → e.handle = t.makeHandle k →
          e.event = .eof → delivered (t.makeHandle k) before = S := by
  obtain ⟨hk, hl⟩ := handleIpv4_established hreach.served hparse hsyn hest
  obtain ⟨log, ended, hlog, hr⟩ :=
    hl.trans fun _ _ hr => hrun.receiver hr (makeHandle_slot hk) hk hS
  refine ⟨log, hlog, hr.inOrder.content_prefix, ?_, ?_⟩
  · intro hact
    rw [hr.receiveNext hact]
    have hiff : ended = true ↔ ∃ e ∈ log, e.handle = t.makeHandle k ∧ e.event = .eof := by
      rw [hr.inOrder.ended_iff, nil_append, notices, mem_filterMap]
      simp only [noticeOf_eof]
    by_cases hend : ended = true
    · rw [if_pos (hiff.mp hend), hend]
      rfl
    · rw [if_neg fun hex => hend (hiff.mpr hex), Bool.eq_false_iff.mpr hend]
      rfl
  · intro before e after hlog hh heof
    have hsplit : notices (t.makeHandle k) log
        = notices (t.makeHandle k) before ++ .eof :: notices (t.makeHandle k) after := by
      rw [hlog, notices_append]
      congr 1
      exact filterMap_cons_some (noticeOf_eof.mpr ⟨hh, heof⟩)
    exact (hr.inOrder.before_eof hsplit).1

/-! A connection from port 49152 to port 80 of another machine that sends `AB` and closes. -/

def quietEnv : Env :=
  { ticks := 7, frequency := 100, localIp := some 0x0A00020F, ipv4Send := fun _ => .ok true
    answer := fun _ => .ok () }

def opening : State := (connect quietEnv 49152 0x0A000202 80 4096 State.fresh).2

/-- A packet of the other machine. -/
def packetOf (sequence acknowledgment : UInt32) (flags : UInt8) (payload : List UInt8) :
    List UInt8 :=
  buildSegment 0x0A000202 0x0A00020F 80 49152 sequence acknowledgment flags 4096 payload

def synAck : Packet :=
  { sourceIp := 0x0A000202, destinationIp := 0x0A00020F, protocol := protocolTcp
    payload := packetOf 1000 (opening.connections 0).sendNext (flagSyn ||| flagAck) []
    length_lt := by decide }

def dataFin : Packet :=
  { sourceIp := 0x0A000202, destinationIp := 0x0A00020F, protocol := protocolTcp
    payload := packetOf 1001 (opening.connections 0).sendNext (flagFin ||| flagAck) [65, 66]
    length_lt := by decide }

example : (handleIpv4 quietEnv dataFin (handleIpv4 quietEnv synAck opening)).events.map
    (fun e => (e.event, e.data))
    = [(.connected, []), (.writable, []), (.data, [65, 66]), (.eof, [])] := by decide +kernel

def synAckSegment : Segment :=
  { sourcePort := 80, destinationPort := 49152, sequence := 1000
    acknowledgment := (opening.connections 0).sendNext, window := 4096, headerLength := 24
    flags := flagSyn ||| flagAck, mss := 536, payload := [] }

def dataFinSegment : Segment :=
  { sourcePort := 80, destinationPort := 49152, sequence := 1001
    acknowledgment := (opening.connections 0).sendNext, window := 4096, headerLength := 20
    flags := flagFin ||| flagAck, mss := 536, payload := [65, 66] }

theorem dataFin_admits : Admits 0 [65, 66] 1000 dataFin t := by
  intro segment hparse _ _
  have hdata : parseSegment dataFin = .ok dataFinSegment := by decide +kernel
  rw [hdata] at hparse
  cases hparse
  exact .piece 0 (by decide) (by decide) (by decide) (by decide) (by decide) (by decide)

theorem in_order_delivery_two_bytes :
    ∃ log, (handleIpv4 quietEnv dataFin (handleIpv4 quietEnv synAck opening)).events
        = opening.events ++ log
      ∧ delivered (opening.makeHandle 0) log <+: [65, 66] := by
  have hreach : Reachable opening := .connect .init quietEnv 49152 0x0A000202 80 4096
  have hparse : parseSegment synAck = .ok synAckSegment := by decide +kernel
  have hest : ((handleIpv4 quietEnv synAck opening).connections 0).state = .established := by
    decide +kernel
  obtain ⟨log, hlog, hpre, _, _⟩ := in_order_delivery (by decide) hreach (by decide +kernel) hparse
    hest (.inbound .refl quietEnv dataFin dataFin_admits)
  exact ⟨log, hlog, hpre⟩

end ZephyrOS.Tcp
