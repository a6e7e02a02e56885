import ZephyrOS.Net.Tcp

/-!
# What the TCP functions touch

Every function of `tcp.c` below the calls works on one slot of the table. `Effect i R P`
says that only slot `i` changed, in a way `R` allows, and that what was told meanwhile was
told to the consumer of slot `i` and was of a kind `P` allows. Two instances matter:

* `Calm i`: the receiving side of the connection did not move. This is all but
  the handshake, `tcp_accept_payload` and `tcp_accept_fin`.
* `Touches i`: the connection is still the same one. This is everything but
  `tcp_clear_connection`.
-/

namespace ZephyrOS.Tcp

open List

variable {env : Env} {i : Nat} {t t' t'' : State} {c : Connection} {f : Connection → Connection}
  {notify : Bool} {error : Err} {j : Nat} {event : Event} {a b : Connection} {completed : Bool}
  {P : Emission → Prop}

/-! ### Updates of the state -/

@[simp] theorem setConnection_self :
    (t.setConnection i c).connections i = c := Function.update_self ..

theorem setConnection_ne (h : j ≠ i) :
    (t.setConnection i c).connections j = t.connections j := Function.update_of_ne h ..

@[simp] theorem modify_self :
    (t.modify i f).connections i = f (t.connections i) := setConnection_self ..

theorem modify_ne (h : j ≠ i) :
    (t.modify i f).connections j = t.connections j := setConnection_ne h ..

@[simp] theorem modify_events : (t.modify i f).events = t.events := rfl

/-! ### Effects -/

structure Effect (i : Nat) (R : Connection → Connection → Prop) (P : Emission → Prop)
    (t t' : State) : Prop where
  others : ∀ j, j ≠ i → t'.connections j = t.connections j
  slot : R (t.connections i) (t'.connections i)
  log : ∃ es, t'.events = t.events ++ es ∧ ∀ e ∈ es, e.handle = t.makeHandle i ∧ P e

theorem makeHandle_congr (h : (t'.connections i).generation = (t.connections i).generation) :
    t'.makeHandle i = t.makeHandle i := by
  unfold State.makeHandle
  rw [h]

namespace Effect

variable {R R₁ R₂ : Connection → Connection → Prop} {P P₁ : Emission → Prop}

theorem mono (h : Effect i R P t t') (hR : ∀ c c', R c c' → R₁ c c') (hP : ∀ e, P e → P₁ e) :
    Effect i R₁ P₁ t t' := by
  obtain ⟨es, hes, hall⟩ := h.log
  exact ⟨h.others, hR _ _ h.slot, es, hes, fun e he => ⟨(hall e he).1, hP _ (hall e he).2⟩⟩

/-- One effect after another. The first must keep the generation, or the second would tell
under another handle. -/
theorem comp (h : Effect i R P t t') (h' : Effect i R₁ P t' t'')
    (hgen : (t'.connections i).generation = (t.connections i).generation)
    (hR : R (t.connections i) (t'.connections i) → R₁ (t'.connections i) (t''.connections i) →
      R₂ (t.connections i) (t''.connections i)) : Effect i R₂ P t t'' := by
  obtain ⟨es, hes, hall⟩ := h.log
  obtain ⟨es', hes', hall'⟩ := h'.log
  refine ⟨fun j hj => (h'.others j hj).trans (h.others j hj), hR h.slot h'.slot, es ++ es', ?_, ?_⟩
  · rw [hes', hes, append_assoc]
  · intro e he
    rcases mem_append.mp he with he | he
    · exact hall e he
    -- the generation did not move, so both tell under one handle
    · rw [← makeHandle_congr hgen]
      exact hall' e he

/-- Nothing was told, and the table is as it was. -/
theorem of_eq (hc : t'.connections = t.connections) (he : t'.events = t.events)
    (hR : R (t.connections i) (t.connections i)) : Effect i R P t t' := by
  exact ⟨fun j _ => by rw [hc], by rw [hc]; exact hR, [], by simp [he], nofun⟩

theorem modify (h : R (t.connections i) (f (t.connections i))) : Effect i R P t (t.modify i f) := by
  exact ⟨fun j hj => modify_ne hj .., by rw [modify_self]; exact h, [], by simp, nofun⟩

theorem emit (hP : ∀ e : Emission, e.event = event → P e)
    (hR : R (t.connections i) (t.connections i)) (data : List UInt8) (error : Option Err) :
    Effect i R P t (emit env i event data error t).2 := by
  unfold Tcp.emit
  split
  · exact of_eq rfl rfl hR
  refine ⟨fun j _ => rfl, hR, _, rfl, ?_⟩
  intro e he
  rw [mem_singleton] at he
  subst he
  exact ⟨rfl, hP _ rfl⟩

/-- `tcp_clear_connection` wipes the slot. -/
theorem clear (env : Env) (i : Nat) (notify : Bool) (t : State)
    (hP : ∀ e : Emission, e.event = .closed → P e)
    (h0 : (t.connections i).active = false → R (t.connections i) (t.connections i))
    (h1 : R (t.connections i) Connection.zero) :
    Effect i R P t (clearConnection env i notify t) := by
  unfold clearConnection
  split
  · rename_i hact
    exact of_eq rfl rfl (h0 (by simpa using hact))
  dsimp only
  split
  · refine ⟨fun j hj => setConnection_ne hj .., ?_, _, rfl, ?_⟩
    · exact setConnection_self.symm ▸ h1
    · intro e he
      rw [mem_singleton] at he
      subst he
      exact ⟨rfl, hP _ rfl⟩
  · refine ⟨fun j hj => setConnection_ne hj .., ?_, [], by simp [State.setConnection], nofun⟩
    exact setConnection_self.symm ▸ h1

end Effect

/-- It is still the same connection. -/
structure Kept (c c' : Connection) : Prop where
  active : c'.active = c.active
  generation : c'.generation = c.generation
  remoteIp : c'.remoteIp = c.remoteIp
  localPort : c'.localPort = c.localPort
  remotePort : c'.remotePort = c.remotePort
  callback : c'.callback = c.callback

theorem Kept.refl (c : Connection) : Kept c c := ⟨rfl, rfl, rfl, rfl, rfl, rfl⟩

theorem Kept.trans (h : Kept a b) (h' : Kept b c) : Kept a c :=
  ⟨h'.active.trans h.active, h'.generation.trans h.generation, h'.remoteIp.trans h.remoteIp,
    h'.localPort.trans h.localPort, h'.remotePort.trans h.remotePort,
    h'.callback.trans h.callback⟩

/-- The receiving side did not move either, and no handshake was begun. -/
structure Quiet (c c' : Connection) : Prop extends Kept c c' where
  receiveNext : c'.receiveNext = c.receiveNext
  synSent : c'.state = .synSent → c.state = .synSent
  established : c'.state = .established → c.state = .established

theorem Quiet.refl (c : Connection) : Quiet c c := ⟨Kept.refl c, rfl, id, id⟩

theorem Quiet.trans (h : Quiet a b) (h' : Quiet b c) : Quiet a c :=
  ⟨h.toKept.trans h'.toKept, h'.receiveNext.trans h.receiveNext, fun hs => h.synSent (h'.synSent hs),
    fun hs => h.established (h'.established hs)⟩

/-- An event that delivers nothing: neither the end nor data the consumer took. -/
def Routine (e : Emission) : Prop := e.event ≠ .eof ∧ (e.event = .data → e.accepted = false)

theorem routine_of (h : event ≠ .eof) (h' : event ≠ .data) (e : Emission)
    (he : e.event = event) : Routine e :=
  ⟨he ▸ h, fun hd => absurd (he ▸ hd) h'⟩

def Touches (i : Nat) (t t' : State) : Prop := Effect i Kept (fun _ => True) t t'

def Calm (i : Nat) (t t' : State) : Prop := Effect i Quiet Routine t t'

/-- As `Touches`, but the connection may be gone. -/
def TouchesOrEnds (i : Nat) (t t' : State) : Prop :=
  Effect i (fun c c' => Kept c c' ∨ c' = Connection.zero) (fun _ => True) t t'

/-- As `Calm`, but the connection may be gone. -/
def CalmOrEnds (i : Nat) (t t' : State) : Prop :=
  Effect i (fun c c' => Quiet c c' ∨ c' = Connection.zero) Routine t t'

theorem Touches.refl : Touches i t t := Effect.of_eq rfl rfl (Kept.refl _)

theorem Calm.refl : Calm i t t := Effect.of_eq rfl rfl (Quiet.refl _)

theorem Touches.trans (h : Touches i t t') (h' : Touches i t' t'') : Touches i t t'' :=
  Effect.comp h h' h.slot.generation Kept.trans

theorem Effect.trans (h : Effect i Quiet P t t') (h' : Effect i Quiet P t' t'') :
    Effect i Quiet P t t'' := h.comp h' h.slot.generation Quiet.trans

theorem Calm.trans (h : Calm i t t') (h' : Calm i t' t'') : Calm i t t'' := Effect.trans h h'

theorem Calm.touches (h : Calm i t t') : Touches i t t' :=
  Effect.mono h (fun _ _ hq => hq.toKept) fun _ _ => trivial

theorem Touches.orEnds (h : Touches i t t') : TouchesOrEnds i t t' :=
  Effect.mono h (fun _ _ hk => .inl hk) fun _ hp => hp

theorem Calm.orEnds (h : Calm i t t') : CalmOrEnds i t t' :=
  Effect.mono h (fun _ _ hq => .inl hq) fun _ hp => hp

theorem CalmOrEnds.touches (h : CalmOrEnds i t t') : TouchesOrEnds i t t' :=
  Effect.mono h (fun _ _ hq => hq.imp (fun hq => hq.toKept) id) fun _ _ => trivial

theorem Touches.trans_ends (h : Touches i t t') (h' : TouchesOrEnds i t' t'') :
    TouchesOrEnds i t t'' :=
  Effect.comp h h' h.slot.generation fun hk hk' => hk'.imp hk.trans id

theorem Calm.trans_ends (h : Calm i t t') (h' : CalmOrEnds i t' t'') : CalmOrEnds i t t'' :=
  Effect.comp h h' h.slot.generation fun hq hq' => hq'.imp hq.trans id

theorem Calm.emit (h : event ≠ .eof) (h' : event ≠ .data) (data : List UInt8)
    (error : Option Err) (t : State) : Calm i t (emit env i event data error t).2 :=
  Effect.emit (routine_of h h') (Quiet.refl _) data error

theorem Calm.modify (t : State)
    (h : Quiet (t.connections i) (f (t.connections i))) : Calm i t (t.modify i f) :=
  Effect.modify h

theorem noteActivity_calm (env : Env) (i : Nat) (t : State) :
    Calm i t (t.modify i fun c => { c with lastActivityTick := env.ticks }) :=
  .modify t ⟨Kept.mk rfl rfl rfl rfl rfl rfl, rfl, id, id⟩

/-! ### The functions that deliver nothing -/

theorem clearConnection_ends : CalmOrEnds i t (clearConnection env i notify t) :=
  Effect.clear env i notify t (routine_of (by simp) (by simp)) (fun _ => .inl (Quiet.refl _)) (.inr rfl)

theorem fail_calm : Calm i t (fail env i error t) := by
  unfold fail
  split
  · exact .refl
  · refine (Calm.modify t ?_).trans (.emit (by simp) (by simp) _ _ _)
    exact ⟨Kept.mk rfl rfl rfl rfl rfl rfl, rfl, nofun, nofun⟩

theorem transmit_same (env : Env) (c : Connection) (sequence : UInt32) (flags : UInt8)
    (payload : List UInt8) (t : State) :
    (transmit env c sequence flags payload t).2.connections = t.connections
      ∧ (transmit env c sequence flags payload t).2.events = t.events := by
  unfold transmit
  split <;> exact ⟨rfl, rfl⟩

/-- Sending tells the consumer nothing at all. -/
theorem transmitOn_effect (env : Env) (i : Nat) (sequence : UInt32) (flags : UInt8)
    (payload : List UInt8) (t : State) :
    Effect i Quiet P t (transmitOn env i sequence flags payload t).2 := by
  have hsame := transmit_same env (t.connections i) sequence flags payload t
  have hsend : Effect i Quiet P t (transmit env (t.connections i) sequence flags payload t).2 :=
    Effect.of_eq hsame.1 hsame.2 (Quiet.refl _)
  unfold transmitOn
  split
  · rename_i t' heq
    rw [heq] at hsend
    dsimp only at hsend ⊢
    exact hsend.trans (.modify ⟨Kept.mk rfl rfl rfl rfl rfl rfl, rfl, id, id⟩)
  · exact hsend

theorem sendAck_effect (env : Env) (i : Nat) (t : State) :
    Effect i Quiet P t (sendAck env i t).2 := by
  have hsend := transmitOn_effect (P := P) env i (t.connections i).sendNext flagAck [] t
  unfold sendAck
  split
  all_goals
    rename_i heq
    rw [heq] at hsend
    exact hsend

theorem sendAck_calm (env : Env) (i : Nat) (t : State) : Calm i t (sendAck env i t).2 :=
  sendAck_effect env i t

theorem sendAck_events (env : Env) (i : Nat) (t : State) :
    (sendAck env i t).2.events = t.events := by
  -- whatever is told has a property that nothing has
  obtain ⟨es, hes, hnone⟩ := (sendAck_effect (P := fun _ => False) env i t).log
  rw [hes, eq_nil_iff_forall_not_mem.mpr fun e he => (hnone e he).2, append_nil]

theorem trySendPending_calm (env : Env) (i : Nat) (t : State) :
    Calm i t (trySendPending env i t).2 := by
  unfold trySendPending
  dsimp only
  split
  · exact .refl
  have hsend : Calm i t _ := transmitOn_effect env i (t.connections i).pendingSequence
    (t.connections i).pendingFlags (t.connections i).pendingPayload t
  split
  all_goals
    rename_i t' heq
    rw [heq] at hsend
    dsimp only at hsend ⊢
  · exact hsend
  · exact hsend
  · exact hsend.trans (.modify t' ⟨Kept.mk rfl rfl rfl rfl rfl rfl, rfl, id, id⟩)

theorem queueTracked_calm (env : Env) (i : Nat) (flags : UInt8) (payload : List UInt8)
    (t : State) : Calm i t (queueTracked env i flags payload t).2 := by
  unfold queueTracked
  split
  · exact .refl
  split
  · exact .refl
  · exact (Calm.modify t ⟨Kept.mk rfl rfl rfl rfl rfl rfl, rfl, id, id⟩).trans
      (trySendPending_calm env i _)

theorem updateRto_quiet (c : Connection) (sample frequency : UInt32) :
    Quiet c (c.updateRto sample frequency) := by
  unfold Connection.updateRto
  split
  · exact Quiet.refl c
  · exact ⟨Kept.mk rfl rfl rfl rfl rfl rfl, rfl, id, id⟩

theorem clearPending_quiet (env : Env) (c : Connection) : Quiet c (c.clearPending env) := by
  have hrto := updateRto_quiet c (env.ticks - c.pendingSentTick) env.frequency
  unfold Connection.clearPending
  split
  · exact hrto.trans ⟨Kept.mk rfl rfl rfl rfl rfl rfl, rfl, id, id⟩
  · exact ⟨Kept.mk rfl rfl rfl rfl rfl rfl, rfl, id, id⟩

theorem sendRawReset_eq (env : Env) (packet : Packet) (segment : Segment) (t : State) :
    (sendRawReset env packet segment t).connections = t.connections
      ∧ (sendRawReset env packet segment t).events = t.events := by
  unfold sendRawReset
  split
  · exact ⟨rfl, rfl⟩
  split
  all_goals exact transmit_same ..

/-! ### Closing and acknowledgments -/

theorem closingState_ne {s next : TcpState} (h : closingState s = some next) :
    next ≠ .synSent ∧ next ≠ .established := by
  cases s <;> simp_all [closingState] <;> subst h <;> simp

theorem beginClose_calm (env : Env) (i : Nat) (t : State) : Calm i t (beginClose env i t).2 := by
  unfold beginClose
  dsimp only
  split
  · exact .refl
  split
  · exact .refl
  rename_i next hnext
  obtain ⟨hsyn, hest⟩ := closingState_ne hnext
  -- the new state is behind the handshake
  have hstate : Calm i t (t.modify i fun c => { c with state := next }) :=
    .modify t ⟨Kept.mk rfl rfl rfl rfl rfl rfl, rfl, fun h => absurd h hsyn, fun h => absurd h hest⟩
  have hqueue := hstate.trans (queueTracked_calm env i (flagFin ||| flagAck) [] _)
  split
  all_goals
    rename_i heq
    rw [heq] at hqueue
  · exact hqueue.trans fail_calm
  · exact hqueue

theorem afterAck_calm : Calm i t (afterAck env i completed t).2 := by
  unfold afterAck
  have htold : Calm i t (if completed then (emit env i .writable [] none t).2 else t) := by
    split
    · exact .emit (by simp) (by simp) _ _ _
    · exact .refl
  generalize (if completed then (emit env i .writable [] none t).2 else t) = u at htold
  dsimp only
  split
  · have hclose := htold.trans (beginClose_calm env i u)
    split
    all_goals
      rename_i heq
      rw [heq] at hclose
      exact hclose
  · exact htold

theorem finAcknowledged_quiet {c' : Connection} (h : finAcknowledged env c = some c') :
    Quiet c c' := by
  unfold finAcknowledged at h
  split at h
  · cases h
    exact ⟨Kept.mk rfl rfl rfl rfl rfl rfl, rfl, nofun, nofun⟩
  · cases h
    exact ⟨Kept.mk rfl rfl rfl rfl rfl rfl, rfl, nofun, nofun⟩
  · cases h
  · cases h
    exact Quiet.refl c

theorem noteAck_quiet (env : Env) (segment : Segment) (completed : Bool) (c : Connection) :
    Quiet c (noteAck env segment completed c) := by
  have hfields : Quiet c { c with
      remoteWindow := segment.window
      sendUnacknowledged :=
        if sequenceLess c.sendUnacknowledged segment.acknowledgment then segment.acknowledgment
        else c.sendUnacknowledged } := ⟨Kept.mk rfl rfl rfl rfl rfl rfl, rfl, id, id⟩
  unfold noteAck
  dsimp only
  split
  · exact hfields.trans (clearPending_quiet env _)
  · exact hfields

/-- **`tcp_process_ack` moves nothing on the receiving side**; it may end the connection, and
only then says so. -/
theorem processAck_effect {segment : Segment} {r : Except Err Bool}
    (h : processAck env i segment t = (r, t')) :
    CalmOrEnds i t t' ∧ (r ≠ .ok true → Calm i t t') := by
  have hcalm : ∀ {u : Except Err Bool × State}, Calm i t u.2 → u = (r, t') →
      CalmOrEnds i t t' ∧ (r ≠ .ok true → Calm i t t') := by
    intro u hu heq
    subst heq
    exact ⟨hu.orEnds, fun _ => hu⟩
  unfold processAck at h
  dsimp only at h
  split at h
  · exact hcalm .refl h
  split at h
  · exact hcalm (sendAck_calm env i t) h
  generalize hdone : (t.connections i).completes segment.acknowledgment = completed at h
  have hnote := Calm.modify t (noteAck_quiet env segment completed (t.connections i))
  generalize (t.modify i _) = u at hnote h
  split at h
  · split at h
    · -- the last acknowledgment of a connection both sides have closed
      cases h
      exact ⟨hnote.trans_ends clearConnection_ends, fun hr => absurd rfl hr⟩
    · rename_i c hc
      have hset : Calm i u (u.modify i fun _ => c) := .modify u (finAcknowledged_quiet hc)
      exact hcalm ((hnote.trans hset).trans afterAck_calm) h
  · exact hcalm (hnote.trans afterAck_calm) h

end ZephyrOS.Tcp
