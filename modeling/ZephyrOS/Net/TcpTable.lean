import Mathlib.Data.Set.Subsingleton
import ZephyrOS.Net.TcpDelivery

/-!
# TCP connections do not meet

A packet is given to the first connection with its addresses and ports. `tcp_connect` refuses
those of a connection that is there, so there is no second one.
-/

namespace ZephyrOS.Tcp

open List

variable {env : Env} {packet : Packet} {remoteIp : UInt32} {t t' : State}
  {i localPort remotePort receiveWindow : Nat}

/-- No two connections have the same addresses and ports. -/
def Distinct (t : State) : Prop :=
  ∀ remoteIp localPort remotePort, {i | i < connectionCapacity ∧
    (t.connections i).matchesTuple remoteIp localPort remotePort}.Subsingleton

theorem Distinct.of_eq (hd : Distinct t) (h : t'.connections = t.connections) : Distinct t' := by
  unfold Distinct at hd ⊢
  rwa [h]

theorem Distinct.of_effect (hd : Distinct t) (h : TouchesOrEnds i t t') : Distinct t' := by
  refine fun ip lp rp => (hd ip lp rp).anti fun j ⟨hlt, hm⟩ => ⟨hlt, ?_⟩
  by_cases hj : j = i
  · subst hj
    rcases h.slot with hk | hz
    · unfold Connection.matchesTuple at hm ⊢
      rwa [hk.active, hk.remoteIp, hk.localPort, hk.remotePort] at hm
    · rw [hz] at hm
      cases hm
  · rwa [h.others j hj] at hm

theorem Distinct.of_call (hd : Distinct t) (h : OnHandle t t') : Distinct t' := by
  rcases h with h | ⟨i, _, h⟩
  · rwa [h]
  · exact hd.of_effect h.touches

/-- A new connection, with addresses and ports that no other has. -/
theorem Distinct.start (hd : Distinct t) {c : Connection}
    (hnone : t.findTuple c.remoteIp c.localPort c.remotePort = none) : Distinct (t.setConnection i c) := by
  have hother : ∀ {ip lp rp}, c.matchesTuple ip lp rp = true → ∀ j, j < connectionCapacity →
      ¬ (t.connections j).matchesTuple ip lp rp := by
    intro ip lp rp hc j hj
    simp only [Connection.matchesTuple, Bool.and_eq_true, beq_iff_eq] at hc
    rw [← hc.1.1.2, ← hc.1.2, ← hc.2]
    exact find?_eq_none.mp hnone j (mem_range.mpr hj)
  rintro ip lp rp j ⟨hj, hmj⟩ k ⟨hk, hmk⟩
  simp only [State.setConnection, Function.update_apply] at hmj hmk
  split at hmj <;> split at hmk
  · exact ‹j = i›.trans ‹k = i›.symm
  · exact absurd hmk (hother hmj k hk)
  · exact absurd hmj (hother hmk j hj)
  · exact hd ip lp rp ⟨hj, hmj⟩ ⟨hk, hmk⟩

theorem connect_distinct (hd : Distinct t) :
    Distinct (connect env localPort remoteIp remotePort receiveWindow t).2 := by
  unfold connect
  split
  · exact hd
  split
  · exact hd
  rename_i hguard
  split
  · exact hd
  rename_i index _
  dsimp only
  generalize hu : ({ t.setConnection index _ with
    generations := _, isnCounter := _, connectionCount := _ } : State) = u
  have hnew : Distinct u := by
    rw [← hu]
    refine (hd.start ?_).of_eq rfl
    simp only [not_or] at hguard
    exact Option.not_isSome_iff_eq_none.mp hguard.2.2.2.2.2.2
  have hafter := hnew.of_effect (queueTracked_calm env index flagSyn [] u).touches.orEnds
  split
  all_goals
    rename_i heq
    rw [heq] at hafter
  · exact hafter.of_effect clearConnection_ends.touches
  · exact hafter

theorem handleIpv4_cases : ((handleIpv4 env packet t).connections = t.connections
      ∧ (handleIpv4 env packet t).events = t.events) ∨
    ∃ segment i, parseSegment packet = .ok segment
      ∧ t.findTuple packet.sourceIp segment.destinationPort segment.sourcePort = some i
      ∧ TouchesOrEnds i t (handleIpv4 env packet t) := by
  unfold handleIpv4
  split
  · exact .inl ⟨rfl, rfl⟩
  split
  · exact .inl ⟨rfl, rfl⟩
  split
  · exact .inl (sendRawReset_eq env packet _ t)
  · exact .inr ⟨_, _, ‹_›, ‹_›, processConnection_touches⟩

theorem Reachable.distinct (h : Reachable t) : Distinct t := by
  induction h with
  | init => exact fun _ _ _ i hi => by cases hi.2
  | connect _ _ _ _ _ _ ih => exact connect_distinct ih
  | send _ _ _ _ ih => exact ih.of_call send_effect
  | setReceiveWindow _ _ _ _ ih => exact ih.of_call setReceiveWindow_effect
  | close _ _ _ ih => exact ih.of_call close_effect
  | abort _ _ _ ih => exact ih.of_call abort_effect
  | maintain _ env ih =>
    unfold Tcp.maintain
    split
    · exact ih
    split
    · exact ih
    refine Lib.forRange_induct (fun _ u => Distinct u) ih fun n u _ hu => ?_
    split
    · exact hu.of_effect maintainConnection_effect.touches
    · exact hu
  | reset _ env ih =>
    unfold Tcp.reset
    split
    · exact ih
    exact (Lib.forRange_induct (fun _ u => Distinct u) ih fun n u _ hu =>
      hu.of_effect clearConnection_ends.touches).of_eq rfl
  | inbound _ env packet ih =>
    rcases handleIpv4_cases with ⟨hc, -⟩ | ⟨_, _, -, -, he⟩
    · exact ih.of_eq hc
    · exact ih.of_effect he

/-- **Connections do not meet.** In every table that is reached no two connections have the same
addresses and ports, and a packet leaves every connection with others as it is and tells its
consumer nothing. -/
theorem inbound_meets_its_tuple (h : Reachable t) : Distinct t ∧ ∀ env packet k,
    (∀ segment, parseSegment packet = .ok segment → ¬ (t.connections k).matchesTuple
      packet.sourceIp segment.destinationPort segment.sourcePort) →
    (handleIpv4 env packet t).connections k = t.connections k ∧
      ∃ es, (handleIpv4 env packet t).events = t.events ++ es ∧
        ∀ e ∈ es, e.handle.toNat % 256 ≠ k + 1 := by
  refine ⟨h.distinct, fun env packet k hother => ?_⟩
  rcases @handleIpv4_cases env packet t with ⟨hc, he⟩ | ⟨segment, i, hparse, hfind, heff⟩
  · exact ⟨by rw [hc], [], by rw [he, append_nil], nofun⟩
  obtain ⟨hlt, hmatch, -⟩ := findTuple_some hfind
  have hk : k ≠ i := fun hk => hother segment hparse (hk ▸ hmatch)
  obtain ⟨es, hes, hall⟩ := heff.log
  refine ⟨heff.others k hk, es, hes, fun e he hslot => hk ?_⟩
  -- the low byte of a handle is the slot
  rw [(hall e he).1, makeHandle_slot hlt] at hslot
  exact (Nat.succ.inj hslot).symm

/-- A second connection to the same port. -/
def twice : State := (connect quietEnv 49153 0x0A000202 80 4096 opening).2

theorem synAck_meets_its_tuple : (twice.connections 1).active = true ∧
    (handleIpv4 quietEnv synAck twice).connections 1 = twice.connections 1 := by
  have hopening : Reachable opening := .connect .init quietEnv 49152 0x0A000202 80 4096
  have hsyn : parseSegment synAck = .ok synAckSegment := by decide +kernel
  refine ⟨by decide +kernel, ((inbound_meets_its_tuple
    (.connect hopening quietEnv 49153 0x0A000202 80 4096)).2 quietEnv synAck 1 fun segment hparse => ?_).1⟩
  cases hsyn.symm.trans hparse
  decide +kernel

end ZephyrOS.Tcp
