import ZephyrOS.Core.Errors
import Mathlib.Tactic.SplitIfs

/-!
# Readiness of UNIX sockets

`core/socket.c` answers the question whether a socket can be written or read now in three places:
in the condition a blocking call waits for, in the call itself and in `socket_poll_revents`. The
queue of a receiver has a limit of bytes and one of packets, and the condition for writing looks
at the bytes only. Blocking calls are modelled up to the point where they wait.
-/

namespace ZephyrOS.UnixSocket

def socketCapacity : Nat := 16
def pathMax : Nat := 108
def backlogMax : Nat := 4
def queueCapacity : Nat := 8
def queueBytes : Nat := 4096
def skBuffStorageSize : Nat := 2048

/-- `socket_state_t`. -/
inductive State where
  | open | bound | listening | connecting | connected | eof | error | closed
  deriving DecidableEq

/-- A `struct socket` of the family UNIX. Links are indices of the pool; the two rings are lists,
`rx` of what is left of each packet. -/
structure Socket where
  used : Bool
  nonblocking : Bool
  fdAttached : Bool
  listenerBound : Bool
  state : State
  «local» : List UInt8
  lastError : Option Err
  peer : Option Nat
  listener : Option Nat
  rx : List (List UInt8)
  rxBytes : Nat
  pending : List Nat
  backlog : Nat

def Socket.zero : Socket :=
  ⟨false, false, false, false, .open, [], none, none, none, [], 0, [], 0⟩

abbrev Pool := Nat → Socket

def Pool.set (p : Pool) (i : Nat) (s : Socket) : Pool := fun j => if j = i then s else p j

/-- The change of one socket, if there is one. -/
def Pool.edit (p : Pool) (i : Option Nat) (f : Socket → Socket) : Pool :=
  match i with
  | none => p
  | some i => p.set i (f (p i))

/-- What a call returns, `none` when it waits. -/
abbrev Call (α : Type) := Pool → Option (Except Err α) × Pool

/-! ### Calls -/

/-- `socket_allocate`; a new queue for waiters cannot be refused here. -/
def allocate : Call Nat := fun p =>
  match (List.range socketCapacity).find? fun i => !(p i).used with
  | none => (some (.error .overflow), p)
  | some i => (some (.ok i), p.set i { Socket.zero with used := true })

/-- `socket_create`, with a descriptor; `opened` is the result of `vfs_open_socket`. -/
def create (nonblocking : Bool) (opened : Option Err) : Call Nat := fun p =>
  match allocate p, opened with
  | (some (.ok i), p), none =>
    (some (.ok i), p.set i { p i with nonblocking := nonblocking, fdAttached := true })
  | (some (.ok i), p), some e => (some (.error e), p.set i .zero)
  | r, _ => r

/-- `socket_destroy`. -/
def destroy (i : Nat) (p : Pool) : Pool := if (p i).used then p.set i .zero else p

/-- `socket_address_valid`. -/
def addressValid (path : List UInt8) : Except Err Unit :=
  if path = [] then .error .invalid else if pathMax ≤ path.length then .error .overflow else .ok ()

/-- The socket is bound to the path. -/
def Socket.boundTo (s : Socket) (path : List UInt8) : Bool :=
  s.used && s.listenerBound && s.local == path

/-- `socket_unix_bind`. -/
def bind (i : Nat) (path : List UInt8) : Call Unit := fun p =>
  match addressValid path with
  | .error e => (some (.error e), p)
  | .ok _ =>
    if !(p i).used ∨ (p i).state ≠ .open then (some (.error .state), p)
    else if (List.range socketCapacity).any fun j => j != i && (p j).boundTo path then
      (some (.error .invalid), p)
    else (some (.ok ()),
      p.set i { p i with «local» := path, listenerBound := true, state := .bound })

/-- `socket_unix_listen`. -/
def listen (i backlog : Nat) : Call Unit := fun p =>
  if backlog = 0 ∨ backlogMax < backlog then (some (.error .invalid), p)
  else if !(p i).used ∨ (p i).state ≠ .bound ∨ !(p i).listenerBound then (some (.error .state), p)
  else (some (.ok ()), p.set i { p i with backlog := backlog, state := .listening })

/-- `socket_unix_connect`, when nobody else runs. -/
def connect (i : Nat) (path : List UInt8) : Call Unit := fun p =>
  match addressValid path with
  | .error e => (some (.error e), p)
  | .ok _ =>
    if !(p i).used ∨ (p i).state ≠ .open then (some (.error .state), p)
    else match (List.range socketCapacity).find? fun j =>
        (p j).boundTo path && (p j).state == .listening with
      | none => (some (.error .notFound), p)
      | some l =>
        if (p l).backlog ≤ (p l).pending.length then
          (if (p i).nonblocking then some (.error .again) else none, p)
        else match allocate p with
          | (some (.ok child), p) =>
            let p := p.set child
              { p child with listener := some l, «local» := path, peer := some i }
            let p := p.set l { p l with pending := (p l).pending ++ [child] }
            (some (.ok ()), p.set i { p i with peer := some child, state := .connected })
          | (some (.error e), p) => (some (.error e), p)
          | (none, p) => (none, p)

/-- `socket_unix_accept`; `opened` is the result of `vfs_open_socket`. -/
def accept (i : Nat) (opened : Option Err) : Call Unit := fun p =>
  if !(p i).used ∨ (p i).state ≠ .listening then (some (.error .state), p)
  else match (p i).pending with
    | [] => (if (p i).nonblocking then some (.error .again) else none, p)
    | child :: rest =>
      let p := p.set i { p i with pending := rest }
      match opened with
      | none => (some (.ok ()), p.set child { p child with fdAttached := true, state := .connected })
      | some e =>
        let p := p.edit (p child).peer
          fun s => { s with peer := none, state := .error, lastError := some e }
        (some (.error e), destroy child p)

/-- `socket_queue_push_locked`. -/
def queuePush (s : Socket) (packet : List UInt8) : Option Socket :=
  if queueCapacity ≤ s.rx.length ∨ queueBytes - s.rxBytes < packet.length then none
  else some { s with rx := s.rx ++ [packet], rxBytes := s.rxBytes + packet.length }

/-- The loop of `socket_unix_send`: the bytes left, and how many were sent. `memory` says how many
buffers can be allocated. -/
def sendLoop (i : Nat) : Nat → Nat → List UInt8 → Nat → Call Nat
  | 0, _, _, sent, p => (some (.ok sent), p)
  | fuel + 1, memory, data, sent, p =>
    let stop := fun e => if sent = 0 then some (.error e) else some (.ok sent)
    if data = [] then (some (.ok sent), p)
    else match (p i).peer with
      | none => (stop .unavailable, p)
      | some r =>
        if !(p i).used ∨ (p i).state ≠ .connected ∨ !(p r).used then (stop .unavailable, p)
        else if queueBytes ≤ (p r).rxBytes ∨ queueCapacity ≤ (p r).rx.length then
          (if (p i).nonblocking then stop .again else none, p)
        else
          let chunk := min data.length (min (queueBytes - (p r).rxBytes) skBuffStorageSize)
          match memory, queuePush (p r) (data.take chunk) with
          | 0, _ => (stop .mem, p)
          | _, none => (if (p i).nonblocking then stop .again else none, p)
          | memory + 1, some s =>
            sendLoop i fuel memory (data.drop chunk) (sent + chunk) (p.set r s)

/-- `socket_unix_send`. -/
def send (i memory : Nat) (data : List UInt8) : Call Nat := sendLoop i data.length memory data 0

/-- `socket_unix_recv`: at most one packet is read. -/
def recv (i capacity : Nat) : Call (List UInt8 × Bool) := fun p =>
  if capacity = 0 then (some (.ok ([], false)), p)
  else match (p i).rx with
    | packet :: rest =>
      let chunk := min packet.length capacity
      let rx := if packet.length ≤ capacity then rest else packet.drop chunk :: rest
      (some (.ok (packet.take chunk, false)),
        p.set i { p i with
          rx := rx
          rxBytes := if chunk ≤ (p i).rxBytes then (p i).rxBytes - chunk else (p i).rxBytes })
    | [] => match (p i).state with
      | .eof | .closed => (some (.ok ([], true)), p)
      | .error => (some (.error ((p i).lastError.getD .state)), p)
      | _ => (if (p i).nonblocking then some (.error .again) else none, p)

/-! ### Readiness -/

/-- What a blocking call waits for. -/
inductive Wait where
  | read | write | accept

/-- `socket_wait_condition`. -/
def waitCondition (p : Pool) (i : Nat) : Wait → Bool
  | .accept => !(p i).used || (p i).state != .listening || (p i).pending != []
  | .read => !(p i).used || (p i).rx != [] || (p i).state == .eof || (p i).state == .error
    || (p i).state == .closed
  | .write => !(p i).used || if (p i).state = .listening then (p i).pending.length < (p i).backlog
    else (p i).state != .connected || (p i).peer.all fun r => (p r).rxBytes < queueBytes

structure Events where
  pollIn : Bool
  pollOut : Bool
  pollErr : Bool
  pollHup : Bool

/-- `socket_poll_revents`. -/
def pollRevents (p : Pool) (i : Nat) : Events :=
  let s := p i
  if !s.used then ⟨false, false, false, true⟩
  else match s.state with
    | .error => ⟨false, false, true, false⟩
    | .eof | .closed => ⟨s.rx != [], false, false, true⟩
    | .listening => ⟨s.pending != [], false, false, false⟩
    | .connected => match s.peer with
      | none => ⟨s.rx != [], false, true, true⟩
      | some r =>
        if !(p r).used then ⟨s.rx != [], false, true, true⟩
        else ⟨s.rx != [], (p r).rxBytes < queueBytes && (p r).rx.length < queueCapacity, false, false⟩
    | _ => ⟨false, false, false, false⟩

/-! ### Agreement -/

/-- The pool when the socket does not block. -/
def Pool.nonblocking (p : Pool) (i : Nat) : Pool := p.set i { p i with nonblocking := true }

/-- The three answers agree, and a send that waits waits for something. -/
structure Coherent (p : Pool) (i : Nat) : Prop where
  send : waitCondition p i .write = true ↔
    ∀ memory byte, (send i memory [byte] (p.nonblocking i)).1 ≠ some (.error .again)
  pollOut : (p i).state = .connected → (waitCondition p i .write = true ↔
    (pollRevents p i).pollOut = true ∨ (pollRevents p i).pollHup = true ∧ (pollRevents p i).pollErr = true)
  recv : waitCondition p i .read = true ↔
    ∀ capacity, (recv i capacity (p.nonblocking i)).1 ≠ some (.error .again)
  pollIn : waitCondition p i .read = true ↔ (pollRevents p i).pollIn = true
    ∨ (pollRevents p i).pollHup = true ∨ (pollRevents p i).pollErr = true
  waits : ∀ memory byte, (p i).nonblocking = false → (UnixSocket.send i memory [byte] p).1 = none →
    waitCondition p i .write = false

/-- Where the answers differ, by state. -/
def Settled (p : Pool) (i : Nat) : Prop :=
  match (p i).state with
  | .connected => match (p i).peer with
    | none => (p i).rx ≠ []
    | some r =>
      if (p r).used then (p r).rxBytes < queueBytes → (p r).rx.length < queueCapacity
      else (p r).rxBytes < queueBytes ∧ (p i).rx ≠ []
  | .listening => (p i).pending.length < (p i).backlog ∧ ((p i).rx ≠ [] ↔ (p i).pending ≠ [])
  | .error => (p i).rx = [] → (p i).lastError ≠ some .again
  | .eof | .closed => True
  | _ => (p i).rx = []

/-- The socket is connected, and the queue of its peer takes no more. -/
def Full (p : Pool) (i : Nat) : Prop :=
  (p i).state = .connected ∧ ∃ r, (p i).peer = some r ∧ (p r).used = true
    ∧ (queueBytes ≤ (p r).rxBytes ∨ queueCapacity ≤ (p r).rx.length)

section
variable {p : Pool} {i memory : Nat} {byte : UInt8}

/-- A send of one byte that does not go through for lack of room. -/
theorem send_one (h : (p i).used = true) :
    (Full p i ∧ (send i memory [byte] p).1 = if (p i).nonblocking then some (.error .again) else none)
      ∨ ¬ Full p i ∧ (send i memory [byte] p).1 ≠ some (.error .again)
        ∧ (send i memory [byte] p).1 ≠ none := by
  unfold send
  rw [List.length_singleton, sendLoop]
  cases hp : (p i).peer with
  | none => exact .inr ⟨by simp [Full, hp], by simp, by simp⟩
  | some r =>
    by_cases hopen : (p i).state = .connected ∧ (p r).used = true
    · by_cases hfull : queueBytes ≤ (p r).rxBytes ∨ queueCapacity ≤ (p r).rx.length
      · refine .inl ⟨⟨hopen.1, r, hp, hopen.2, hfull⟩, ?_⟩
        simp [h, hopen, hfull]
      · -- there is room for the byte, so only memory can be missing
        have hchunk : min 1 (min (queueBytes - (p r).rxBytes) skBuffStorageSize) = 1 := by
          unfold skBuffStorageSize
          omega
        have hpush : queuePush (p r) [byte] =
            some { p r with rx := (p r).rx ++ [[byte]], rxBytes := (p r).rxBytes + 1 } := by
          rw [queuePush, if_neg]
          · rfl
          · simp only [List.length_singleton]
            omega
        refine .inr ⟨fun hf => ?_, ?_⟩
        · obtain ⟨-, r', hr', -, hfull'⟩ := hf
          cases hp.symm.trans hr'
          exact hfull hfull'
        · cases memory <;> simp [h, hopen, hfull, hchunk, hpush, sendLoop]
    · refine .inr ⟨fun hf => ?_, ?_⟩
      · obtain ⟨hstate, r', hr', hused, -⟩ := hf
        cases hp.symm.trans hr'
        exact hopen ⟨hstate, hused⟩
      · have hclosed : ¬ (p i).state = .connected ∨ (p r).used = false := by
          by_cases hs : (p i).state = .connected
          · exact .inr (eq_false_of_ne_true fun hu => hopen ⟨hs, hu⟩)
          · exact .inl hs
        simp [h, hclosed]

/-- The socket itself is all that `recv` looks at. -/
theorem recv_again_iff {capacity : Nat} (hn : (p i).nonblocking = true) :
    (recv i capacity p).1 = some (.error .again) ↔ capacity ≠ 0 ∧ (p i).rx = []
      ∧ if (p i).state = .error then (p i).lastError = some .again
        else (p i).state ≠ .eof ∧ (p i).state ≠ .closed := by
  unfold recv
  by_cases hc : capacity = 0
  · simp [hc]
  · cases hrx : (p i).rx with
    | cons packet rest => simp [hc]
    | nil =>
      cases hs : (p i).state <;> simp [hc, hn]
      cases (p i).lastError <;> simp

theorem nonblocking_full : Full (p.nonblocking i) i ↔ Full p i := by
  have hsame : ∀ j, ((p.nonblocking i) j).state = (p j).state ∧ ((p.nonblocking i) j).peer = (p j).peer
      ∧ ((p.nonblocking i) j).used = (p j).used ∧ ((p.nonblocking i) j).rx = (p j).rx
      ∧ ((p.nonblocking i) j).rxBytes = (p j).rxBytes := by
    intro j
    unfold Pool.nonblocking Pool.set
    split_ifs with hj
    · cases hj
      exact ⟨rfl, rfl, rfl, rfl, rfl⟩
    · exact ⟨rfl, rfl, rfl, rfl, rfl⟩
  simp only [Full, hsame]

theorem send_ready_iff (h : (p i).used = true) :
    (∀ memory byte, (send i memory [byte] (p.nonblocking i)).1 ≠ some (.error .again)) ↔ ¬ Full p i := by
  have hu : ((p.nonblocking i) i).used = true := by simpa [Pool.nonblocking, Pool.set] using h
  have hn : ((p.nonblocking i) i).nonblocking = true := by simp [Pool.nonblocking, Pool.set]
  constructor
  · intro hsend hfull
    rcases send_one hu with ⟨-, he⟩ | ⟨hnot, -⟩
    · rw [hn] at he
      exact hsend 0 0 he
    · exact hnot (nonblocking_full.2 hfull)
  · intro hfull memory byte
    rcases send_one hu with ⟨hf, -⟩ | ⟨-, hne, -⟩
    · exact absurd (nonblocking_full.1 hf) hfull
    · exact hne

theorem recv_ready_iff : (∀ capacity, (recv i capacity (p.nonblocking i)).1 ≠ some (.error .again)) ↔
    ¬ ((p i).rx = [] ∧ if (p i).state = .error then (p i).lastError = some .again
      else (p i).state ≠ .eof ∧ (p i).state ≠ .closed) := by
  have hn : ((p.nonblocking i) i).nonblocking = true := by simp [Pool.nonblocking, Pool.set]
  simp only [ne_eq, recv_again_iff hn, not_and]
  simp only [Pool.nonblocking, Pool.set, if_true]
  exact ⟨fun hr => hr 1 Nat.one_ne_zero, fun hr _ _ => hr⟩

/-- A send that waits finds the queue full. -/
theorem full_of_waits (h : (p i).used = true)
    (hw : (send i memory [byte] p).1 = none) : Full p i := by
  rcases send_one h with ⟨hfull, -⟩ | ⟨-, -, hne⟩
  · exact hfull
  · exact absurd hw hne

/-- The five parts, with the calls replaced by what they look at. -/
theorem coherent_iff_answers (h : (p i).used = true) : Coherent p i ↔
    (waitCondition p i .write = true ↔ ¬ Full p i) ∧
    ((p i).state = .connected → (waitCondition p i .write = true ↔ (pollRevents p i).pollOut = true
      ∨ (pollRevents p i).pollHup = true ∧ (pollRevents p i).pollErr = true)) ∧
    (waitCondition p i .read = true ↔ ¬ ((p i).rx = [] ∧ if (p i).state = .error then
      (p i).lastError = some .again else (p i).state ≠ .eof ∧ (p i).state ≠ .closed)) ∧
    (waitCondition p i .read = true ↔ (pollRevents p i).pollIn = true
      ∨ (pollRevents p i).pollHup = true ∨ (pollRevents p i).pollErr = true) := by
  constructor
  · intro hc
    exact ⟨hc.send.trans (send_ready_iff h), hc.pollOut, hc.recv.trans recv_ready_iff, hc.pollIn⟩
  · intro hc
    obtain ⟨hsend, hout, hrecv, hin⟩ := hc
    refine ⟨hsend.trans (send_ready_iff h).symm, hout, hrecv.trans recv_ready_iff.symm, hin, ?_⟩
    -- a send waits only where the queue is full, and there writing is not ready
    intro memory byte _ hw
    exact eq_false_of_ne_true fun ht => hsend.1 ht (full_of_waits h hw)

/-- The answers agree exactly in the settled states. -/
theorem coherent_iff (h : (p i).used = true) : Coherent p i ↔ Settled p i := by
  rw [coherent_iff_answers h]
  simp only [Settled, Full, waitCondition, pollRevents, h]
  cases hs : (p i).state with
  | connected =>
    cases hp : (p i).peer with
    | none => simp
    | some r =>
      by_cases hu : (p r).used = true
      · simp [hu]
      · simp [hu]
  | listening => simp
  | error => simp
  | eof | closed => simp
  | «open» | bound | connecting => simp

end

/-- Two sockets and a connection. -/
def paired : Pool :=
  let p := (create false none (create false none fun _ => .zero).2).2
  (accept 0 none (connect 1 [47] (listen 0 1 (bind 0 [47] p).2).2).2).2

theorem paired_coherent : (paired 1).used = true ∧ Coherent paired 1 := by
  refine ⟨rfl, (coherent_iff rfl).2 ?_⟩
  intro _
  decide

/-- Eight sends of one byte that nobody has read. -/
def crowded : Pool := (List.replicate 8 [0]).foldl (fun p data => (send 1 1 data p).2) paired

/-- The ninth waits for what is already so, and waits again. -/
theorem crowded_waits : waitCondition crowded 1 .write = true ∧ (send 1 1 [0] crowded).1 = none
    ∧ (send 1 1 [0] (crowded.nonblocking 1)).1 = some (.error .again)
    ∧ (pollRevents crowded 1).pollOut = false ∧ ¬ Coherent crowded 1 := by
  have hready : waitCondition crowded 1 .write = true := by decide
  have hwaits : (send 1 1 [0] crowded).1 = none := rfl
  refine ⟨hready, hwaits, rfl, rfl, fun hc => ?_⟩
  have hnot := hc.waits 1 0 rfl hwaits
  cases hnot

end ZephyrOS.UnixSocket
