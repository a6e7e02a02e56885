import ZephyrOS.Net.TcpEffect

/-!
# TCP calls and reachable tables

What the calls of `tcp.c` do to one connection, whichever of them is called and for whatever
handle: `Aside k` says that the receiving side of slot `k` did not move, and every call but
the arrival of a segment for that very connection is of that kind.
-/

namespace ZephyrOS.Tcp

open List

variable {env : Env} {i k : Nat} {t t' t'' : State} {segment : Segment} {handle : UInt32}
  {data : List UInt8} {receiveWindow : Nat}

/-! ### The functions that move the receiving side -/

theorem processSynSent_touches : Touches i t (processSynSent env i segment t) := by
  unfold processSynSent
  dsimp only
  split
  · split
    · exact fail_calm.touches
    · exact .refl
  split
  · exact .refl
  refine .trans ?_ (Calm.emit (by simp) (by simp) _ _ _).touches
  refine .trans ?_ (Calm.emit (by simp) (by simp) _ _ _).touches
  refine Touches.trans (Effect.modify ?_) (sendAck_calm env i _).touches
  have hclear := (clearPending_quiet env
    { t.connections i with sendUnacknowledged := segment.acknowledgment }).toKept
  exact { hclear with }

theorem acceptPayload_touches (env : Env) (i : Nat) (segment : Segment) (t : State) :
    Touches i t (acceptPayload env i segment t).2 := by
  unfold acceptPayload
  dsimp only
  split
  · exact .refl
  split
  · exact (sendAck_calm env i t).touches
  split
  · exact (sendAck_calm env i t).touches
  have htold : Touches i t (emit env i .data segment.payload none t).2 :=
    Effect.emit (fun _ _ => trivial) (Kept.refl _) _ _
  split
  all_goals
    rename_i heq
    rw [heq] at htold
    refine .trans htold ?_
  · exact fail_calm.touches
  · exact .trans (Effect.modify ⟨rfl, rfl, rfl, rfl, rfl, rfl⟩) (sendAck_calm env i _).touches

theorem finReceived_kept (env : Env) (c : Connection) :
    Kept c (finReceived env c) ∧ (finReceived env c).receiveNext = c.receiveNext := by
  unfold finReceived
  split
  · exact ⟨⟨rfl, rfl, rfl, rfl, rfl, rfl⟩, rfl⟩
  · split <;> exact ⟨⟨rfl, rfl, rfl, rfl, rfl, rfl⟩, rfl⟩
  · exact ⟨⟨rfl, rfl, rfl, rfl, rfl, rfl⟩, rfl⟩
  · exact ⟨Kept.refl c, rfl⟩

theorem acceptFin_touches : Touches i t (acceptFin env i segment t) := by
  unfold acceptFin
  dsimp only
  split
  · exact .refl
  split
  · exact (sendAck_calm env i t).touches
  refine .trans ?_ (Effect.modify (finReceived_kept env _).1)
  refine .trans ?_ (Effect.emit (fun _ _ => trivial) (Kept.refl _) _ _)
  exact .trans (Effect.modify ⟨rfl, rfl, rfl, rfl, rfl, rfl⟩) (sendAck_calm env i _).touches

theorem processInOrder_touches : TouchesOrEnds i t (processInOrder env i segment t) := by
  unfold processInOrder
  split
  · exact fail_calm.touches.orEnds
  split
  · exact fail_calm.touches.orEnds
  split
  · exact (sendAck_calm env i t).touches.orEnds
  split
  · rename_i heq
    exact (processAck_effect heq).1.touches
  · rename_i heq
    exact (processAck_effect heq).1.touches
  rename_i u heq
  have hack := ((processAck_effect heq).2 (by simp)).touches
  have hdata := hack.trans (acceptPayload_touches env i segment u)
  split
  all_goals
    rename_i heq
    rw [heq] at hdata
  · exact hdata.orEnds
  · exact (hdata.trans acceptFin_touches).orEnds

theorem processConnection_touches : TouchesOrEnds i t (processConnection env i segment t) := by
  unfold processConnection
  have hnote := noteActivity_calm env i t
  generalize (t.modify i fun c => { c with lastActivityTick := env.ticks }) = u at hnote
  refine hnote.touches.trans_ends ?_
  dsimp only
  split
  · exact processSynSent_touches.orEnds
  split
  · split
    · refine Touches.orEnds (.trans (sendAck_calm env i u).touches (Effect.modify ?_))
      exact ⟨rfl, rfl, rfl, rfl, rfl, rfl⟩
    · exact Touches.refl.orEnds
  split
  · exact (sendAck_calm env i u).touches.orEnds
  · exact processInOrder_touches

/-! ### Maintenance -/

theorem maintainPending_calm (env : Env) (i : Nat) (maximumRto : UInt32) (t : State) :
    Calm i t (maintainPending env i maximumRto t) := by
  unfold maintainPending
  dsimp only
  split
  · exact .refl
  split
  · have hsend := trySendPending_calm env i t
    split
    all_goals
      rename_i heq
      rw [heq] at hsend
    · exact hsend.trans fail_calm
    · exact hsend
  split
  · exact .refl
  split
  · exact fail_calm
  -- a retransmission
  have hcount := Calm.modify t (i := i) (f := fun c => { c with
    retransmissions := c.retransmissions + 1
    pendingRetransmitted := true
    pendingSent := false
    rtoTicks := if maximumRto / 2 < c.rtoTicks then maximumRto else c.rtoTicks * 2 })
    ⟨Kept.mk rfl rfl rfl rfl rfl rfl, rfl, id, id⟩
  have hsend := hcount.trans (trySendPending_calm env i _)
  split
  all_goals
    rename_i u heq
    rw [heq] at hsend
  · split
    · exact hsend.trans (.modify u ⟨Kept.mk rfl rfl rfl rfl rfl rfl, rfl, id, id⟩)
    · exact hsend
  · exact hsend

theorem maintainConnection_effect : CalmOrEnds i t (maintainConnection env i t) := by
  unfold maintainConnection
  dsimp only
  split
  · split
    · exact clearConnection_ends
    · exact Calm.refl.orEnds
  split
  · exact Calm.refl.orEnds
  have hpending := maintainPending_calm env i (secondsToTicks maxRtoSeconds env.frequency) t
  generalize maintainPending env i (secondsToTicks maxRtoSeconds env.frequency) t = u at hpending
  split
  · exact hpending.orEnds
  split
  · exact (hpending.trans fail_calm).orEnds
  split
  · exact (hpending.trans (beginClose_calm env i u)).orEnds
  · exact hpending.orEnds

/-! ### One connection, whatever the call -/

/-- The receiving side of slot `k` did not move, and its consumer was told of no data. -/
structure Aside (k : Nat) (t t' : State) : Prop where
  slot : (t'.connections k).active = true → Quiet (t.connections k) (t'.connections k)
  log : ∃ es, t'.events = t.events ++ es ∧ ∀ e ∈ es, e.handle.toNat % 256 = k + 1 → Routine e

theorem Aside.of_eq (hc : t'.connections = t.connections) (he : t'.events = t.events) :
    Aside k t t' := by
  exact ⟨fun _ => by rw [hc]; exact Quiet.refl _, [], by simp [he], nofun⟩

theorem Aside.refl : Aside k t t := Aside.of_eq rfl rfl

theorem Aside.trans (h : Aside k t t') (h' : Aside k t' t'') : Aside k t t'' := by
  obtain ⟨es, hes, hall⟩ := h.log
  obtain ⟨es', hes', hall'⟩ := h'.log
  refine ⟨fun hact => ?_, es ++ es', by rw [hes', hes, append_assoc], ?_⟩
  · have hq := h'.slot hact
    exact (h.slot (hq.active ▸ hact)).trans hq
  · intro e he
    rcases mem_append.mp he with he | he
    · exact hall e he
    · exact hall' e he

/-- A handle names its slot. -/
theorem makeHandle_slot (hi : i < connectionCapacity) : (t.makeHandle i).toNat % 256 = i + 1 := by
  have hi' : i + 1 < 256 := Nat.lt_of_lt_of_le (Nat.succ_lt_succ hi) (by simp [connectionCapacity])
  unfold State.makeHandle
  rw [UInt32.toNat_or, UInt32.toNat_shiftLeft, UInt32.toNat_ofNat', Nat.shiftLeft_eq,
    show 256 = 2 ^ 8 by rfl, Nat.or_mod_two_pow, show (8 : UInt32).toNat % 32 = 8 by rfl]
  -- the generation is shifted out of the low byte
  have hlow : (t.connections i).generation.toNat * 2 ^ 8 % 2 ^ 32 % 2 ^ 8 = 0 := by omega
  rw [hlow, Nat.zero_or]
  omega

theorem CalmOrEnds.aside (h : CalmOrEnds i t t') (hi : i < connectionCapacity) : Aside k t t' := by
  obtain ⟨es, hes, hall⟩ := h.log
  refine ⟨fun hact => ?_, es, hes, fun e he _ => (hall e he).2⟩
  by_cases hk : k = i
  · subst hk
    rcases h.slot with hq | hz
    · exact hq
    · rw [hz] at hact
      exact absurd hact (by simp [Connection.zero])
  · rw [h.others k hk]
    exact Quiet.refl _

theorem TouchesOrEnds.aside (h : TouchesOrEnds i t t') (hi : i < connectionCapacity)
    (hk : k ≠ i) : Aside k t t' := by
  obtain ⟨es, hes, hall⟩ := h.log
  refine ⟨fun _ => by rw [h.others k hk]; exact Quiet.refl _, es, hes, fun e he hslot => ?_⟩
  rw [(hall e he).1, makeHandle_slot hi] at hslot
  exact absurd (Nat.succ.inj hslot).symm hk

theorem findHandle_lt (h : t.findHandle handle = some i) : i < connectionCapacity := by
  unfold State.findHandle at h
  dsimp only at h
  split at h
  · cases h
  split at h
  · cases h
  · cases h
    omega

theorem findTuple_some {remoteIp : UInt32} {localPort remotePort : Nat}
    (h : t.findTuple remoteIp localPort remotePort = some i) :
    i < connectionCapacity ∧ (t.connections i).matchesTuple remoteIp localPort remotePort
      ∧ (t.connections i).active = true := by
  have hmatch := find?_some h
  refine ⟨mem_range.mp (mem_of_find?_eq_some h), hmatch, ?_⟩
  unfold Connection.matchesTuple at hmatch
  simp only [Bool.and_eq_true] at hmatch
  exact hmatch.1.1.1

/-- What a call does that works on the connection a handle names: nothing, or something to a
slot of the table. -/
def OnHandle (t t' : State) : Prop :=
  t' = t ∨ ∃ i, i < connectionCapacity ∧ CalmOrEnds i t t'

theorem OnHandle.aside (h : OnHandle t t') : Aside k t t' := by
  rcases h with h | ⟨i, hi, h⟩
  · rw [h]
    exact Aside.refl
  · exact h.aside hi

theorem send_effect : OnHandle t (send env handle data t).2 := by
  unfold send
  split
  · exact .inl rfl
  split
  · exact .inl rfl
  rename_i i hi
  refine .inr ⟨i, findHandle_lt hi, Calm.orEnds ?_⟩
  dsimp only
  split
  · exact .refl
  have hqueue := queueTracked_calm env i (flagAck ||| flagPsh)
    (data.take ((t.connections i).acceptedLength data.length)) t
  split
  all_goals
    rename_i u heq
    rw [heq] at hqueue
    dsimp only at hqueue ⊢
  · exact hqueue.trans fail_calm
  · exact hqueue.trans (.modify u ⟨Kept.mk rfl rfl rfl rfl rfl rfl, rfl, id, id⟩)

theorem setReceiveWindow_effect : OnHandle t (setReceiveWindow env handle receiveWindow t).2 := by
  unfold setReceiveWindow
  split
  · exact .inl rfl
  split
  · exact .inl rfl
  split
  · exact .inl rfl
  rename_i i hi
  refine .inr ⟨i, findHandle_lt hi, Calm.orEnds ?_⟩
  have hset : Calm i t (t.modify i fun c => { c with localWindow := receiveWindow }) :=
    .modify t ⟨Kept.mk rfl rfl rfl rfl rfl rfl, rfl, id, id⟩
  dsimp only
  split
  · exact hset.trans (sendAck_calm env i _)
  · exact hset

theorem close_effect : OnHandle t (close env handle t).2 := by
  unfold close
  split
  · exact .inl rfl
  split
  · exact .inl rfl
  rename_i i hi
  refine .inr ⟨i, findHandle_lt hi, ?_⟩
  dsimp only
  split
  · exact clearConnection_ends
  · have hset : Calm i t (t.modify i fun c => { c with closeRequested := true }) :=
      .modify t ⟨Kept.mk rfl rfl rfl rfl rfl rfl, rfl, id, id⟩
    exact (hset.trans (beginClose_calm env i _)).orEnds

theorem abort_effect : OnHandle t (abort env handle t).2 := by
  unfold abort
  split
  · exact .inl rfl
  split
  · exact .inl rfl
  rename_i i hi
  refine .inr ⟨i, findHandle_lt hi, ?_⟩
  dsimp only
  split
  · exact Calm.trans_ends (transmitOn_effect env i _ _ [] t) clearConnection_ends
  · exact clearConnection_ends

theorem maintain_aside : Aside k t (maintain env t).2 := by
  unfold maintain
  split
  · exact Aside.refl
  split
  · exact Aside.refl
  refine Lib.forRange_induct (fun _ u => Aside k t u) Aside.refl ?_
  intro n u hn hu
  split
  · rw [Nat.zero_add]
    exact hu.trans (maintainConnection_effect.aside hn)
  · exact hu

/-! ### Reachable tables -/

/-- The tables that calls and arriving packets lead to from `tcp_init`. -/
inductive Reachable : State → Prop where
  | init : Reachable State.fresh
  | connect {t : State} (h : Reachable t) (env : Env) (localPort : Nat) (remoteIp : UInt32)
      (remotePort receiveWindow : Nat) :
      Reachable (connect env localPort remoteIp remotePort receiveWindow t).2
  | send {t : State} (h : Reachable t) (env : Env) (handle : UInt32) (data : List UInt8) :
      Reachable (send env handle data t).2
  | setReceiveWindow {t : State} (h : Reachable t) (env : Env) (handle : UInt32)
      (receiveWindow : Nat) : Reachable (setReceiveWindow env handle receiveWindow t).2
  | close {t : State} (h : Reachable t) (env : Env) (handle : UInt32) :
      Reachable (close env handle t).2
  | abort {t : State} (h : Reachable t) (env : Env) (handle : UInt32) :
      Reachable (abort env handle t).2
  | maintain {t : State} (h : Reachable t) (env : Env) : Reachable (maintain env t).2
  | reset {t : State} (h : Reachable t) (env : Env) : Reachable (reset env t).2
  | inbound {t : State} (h : Reachable t) (env : Env) (packet : Packet) :
      Reachable (handleIpv4 env packet t)

/-- Every connection has a consumer. -/
def Served (t : State) : Prop := ∀ i, (t.connections i).active → (t.connections i).callback

section

variable (hs : Served t)
include hs

theorem Served.of_effect (h : TouchesOrEnds i t t') : Served t' := by
  intro j hact
  by_cases hj : j = i
  · subst hj
    rcases h.slot with hk | hz
    · rw [hk.callback]
      exact hs j (hk.active ▸ hact)
    · rw [hz] at hact
      exact absurd hact (by simp [Connection.zero])
  · rw [h.others j hj] at hact ⊢
    exact hs j hact

theorem Served.of_eq (h : t'.connections = t.connections) : Served t' := by
  intro j hact
  rw [h] at hact ⊢
  exact hs j hact

theorem connect_served (env : Env) (localPort : Nat) (remoteIp : UInt32)
    (remotePort receiveWindow : Nat) :
    Served (connect env localPort remoteIp remotePort receiveWindow t).2 := by
  unfold connect
  split
  · exact hs
  split
  · exact hs
  split
  · exact hs
  rename_i index _
  dsimp only
  generalize hc : newConnection _ _ _ _ _ _ _ = c
  have hnew : Served (t.setConnection index c) := by
    intro j hact
    by_cases hj : j = index
    · subst hj
      rw [setConnection_self, ← hc]
      rfl
    · rw [setConnection_ne hj] at hact ⊢
      exact hs j hact
  generalize hu : ({ t.setConnection index c with
    generations := _, isnCounter := _, connectionCount := _ } : State) = u
  have hserved : Served u := hnew.of_eq (by rw [← hu])
  have hqueue := queueTracked_calm env index flagSyn [] u
  split
  all_goals
    rename_i heq
    rw [heq] at hqueue
    have hafter := hserved.of_effect hqueue.touches.orEnds
  · exact hafter.of_effect clearConnection_ends.touches
  · exact hafter

theorem maintain_served (env : Env) : Served (maintain env t).2 := by
  unfold maintain
  split
  · exact hs
  split
  · exact hs
  refine Lib.forRange_induct (fun _ u => Served u) hs ?_
  intro n u _ hu
  split
  · exact hu.of_effect maintainConnection_effect.touches
  · exact hu

theorem reset_served (env : Env) : Served (reset env t).2 := by
  unfold reset
  split
  · exact hs
  have hloop : Served (Lib.forRange 0 (fun index t => clearConnection env index true t)
      connectionCapacity t) := by
    refine Lib.forRange_induct (fun _ u => Served u) hs ?_
    intro n u _ hu
    exact hu.of_effect clearConnection_ends.touches
  exact hloop.of_eq rfl

theorem handleIpv4_served (env : Env) (packet : Packet) :
    Served (handleIpv4 env packet t) := by
  unfold handleIpv4
  split
  · exact hs
  split
  · exact hs
  split
  · exact hs.of_eq (sendRawReset_eq env packet _ t).1
  · exact hs.of_effect processConnection_touches

theorem Served.of_call (h : OnHandle t t') : Served t' := by
  rcases h with h | ⟨i, _, h⟩
  · rw [h]
    exact hs
  · exact hs.of_effect h.touches

end

theorem Reachable.served (h : Reachable t) : Served t := by
  induction h with
  | init =>
    intro i hact
    exact absurd hact (by simp [State.fresh, Connection.zero])
  | connect _ env localPort remoteIp remotePort receiveWindow ih =>
    exact connect_served ih env localPort remoteIp remotePort receiveWindow
  | send _ env handle data ih => exact ih.of_call send_effect
  | setReceiveWindow _ env handle receiveWindow ih =>
    exact ih.of_call setReceiveWindow_effect
  | close _ env handle ih => exact ih.of_call close_effect
  | abort _ env handle ih => exact ih.of_call abort_effect
  | maintain _ env ih => exact maintain_served ih env
  | reset _ env ih => exact reset_served ih env
  | inbound _ env packet ih => exact handleIpv4_served ih env packet

end ZephyrOS.Tcp
