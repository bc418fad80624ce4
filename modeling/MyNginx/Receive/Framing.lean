import MyNginx.Receive.Progress
import MyNginx.Server.System

/-!
# Framing of requests

A connection that was just accepted receives a byte stream cut in any way. The
messages it hands to the thread pool are the frames of what it has received,
each behind a message header of this use of the connection.
-/

namespace MyNginx

open Foundation

/-- What a readable event may find: some bytes, or an interrupted read. -/
inductive Arrival where
  | bytes (bytes : List UInt8)
  | interrupted

namespace Arrival

def answer : Arrival → RecvAnswer
  | bytes bs => .data bs
  | interrupted => .failed .eintr

def received : Arrival → List UInt8
  | bytes bs => bs
  | interrupted => []

end Arrival

namespace State

/-- A readable event of connection `c`. -/
def readable (c : ConnId) (s : State) (arrival : Arrival) : Option State :=
  s.eventReadableRequestHandler c { recv := arrival.answer }

/-- A connection behind `accept`: open, its receive machine at the beginning. -/
structure Accepted (s : State) (c : ConnId) : Prop where
  opened : s.openFds (s.conn c).fd = true
  start : (s.conn c).toIncoming = Incoming.start

instance (s : State) (c : ConnId) : Decidable (s.Accepted c) :=
  decidable_of_iff (s.openFds (s.conn c).fd = true ∧ (s.conn c).toIncoming = Incoming.start)
    ⟨fun h => ⟨h.1, h.2⟩, fun h => ⟨h.opened, h.start⟩⟩

/-- `recv` can answer like this: it stores at least one byte and at most as many
as it was asked for. -/
def CanArrive (s : State) (c : ConnId) : Arrival → Prop
  | .bytes bs => 1 ≤ bs.length ∧ bs.length ≤ s.requested c
  | .interrupted => True

/-- The message a complete packet becomes. -/
def delivered (s : State) (c : ConnId) (packet : List UInt8) : Option Message :=
  some (packetMessage c (s.conn c).sequence (s.history.use c) packet)

variable {s₀ s s' : State} {c : ConnId} {arrivals arrivals' : List Arrival}
variable {seq use : Nat} {got : List UInt8}

/-- The bytes of a run of readable events, in order. -/
def receivedBytes (arrivals : List Arrival) : List UInt8 :=
  (arrivals.map Arrival.received).flatten

/-- Every answer `recv` can give is handled as the format says. -/
theorem readable_spec (h : Receiving s c seq use got) {arrival : Arrival}
    (possible : s.CanArrive c arrival) :
    ∃ s', readable c s arrival = some s' ∧
      Receiving s' c seq use (packetFormat.rest (got ++ arrival.received)) ∧
      s'.msgqueue = s.msgqueue ++
        (packetFormat.frames (got ++ arrival.received)).map (some ∘ packetMessage c seq use) := by
  cases arrival with
  | bytes bs => exact readable_data h rfl possible.1 possible.2
  | interrupted =>
      obtain ⟨s', hs', hrecv, hqueue⟩ := readable_eintr { recv := .failed .eintr } h rfl
      refine ⟨s', hs', ?_, ?_⟩
      · rwa [Arrival.received, List.append_nil, h.progress.unfinished.2]
      · rw [Arrival.received, List.append_nil, h.progress.unfinished.1, hqueue]
        simp

theorem canArrive_of_readable (h : Receiving s c seq use got) {arrival : Arrival}
    (hs : readable c s arrival = some s') : s.CanArrive c arrival := by
  cases arrival with
  | interrupted => trivial
  | bytes bs =>
      by_contra himpossible
      have hnone : readable c s (.bytes bs) = none := readable_none h rfl himpossible
      rw [hnone] at hs
      cases hs

/-- A run of readable events delivers the frames of the bytes received and keeps
the unfinished rest. -/
theorem readable_run (h : Receiving s c seq use got)
    (hr : run (readable c) s arrivals = some s') :
    Receiving s' c seq use (packetFormat.rest (got ++ receivedBytes arrivals)) ∧
      s'.msgqueue = s.msgqueue ++
        (packetFormat.frames (got ++ receivedBytes arrivals)).map
          (some ∘ packetMessage c seq use) := by
  induction arrivals generalizing s got with
  | nil =>
      obtain rfl := Option.some.inj hr
      have hunfinished := h.progress.unfinished
      simp only [receivedBytes, List.map_nil, List.flatten_nil, List.append_nil, hunfinished]
      exact ⟨h, by simp⟩
  | cons arrival arrivals ih =>
      obtain ⟨t, ht, rest⟩ := run_cons_eq_some.mp hr
      obtain ⟨t', ht', hrecv, hqueue⟩ := readable_spec h (canArrive_of_readable h ht)
      obtain rfl : t = t' := Option.some.inj (ht.symm.trans ht')
      obtain ⟨hrecv', hqueue'⟩ := ih hrecv rest
      have hbytes : got ++ receivedBytes (arrival :: arrivals) =
          (got ++ arrival.received) ++ receivedBytes arrivals := by
        simp [receivedBytes]
      rw [hbytes, Format.rest_append, Format.frames_append]
      exact ⟨hrecv', by rw [hqueue', hqueue, List.map_append, List.append_assoc]⟩

theorem Accepted.receiving (h : Accepted s c) :
    Receiving s c (s.conn c).sequence (s.history.use c) [] :=
  ⟨h.opened, rfl, rfl, .start (by rw [h.start]; rfl)⟩

/-- Packet framing: whatever bytes arrive and however they are cut, the messages
handed over are the frames of the bytes received, every further answer of `recv`
is handled, and another cut of the same bytes hands over the same messages. -/
theorem packet_framing (accepted : Accepted s₀ c)
    (hr : run (readable c) s₀ arrivals = some s) :
    s.msgqueue = s₀.msgqueue ++
        (packetFormat.frames (receivedBytes arrivals)).map (s₀.delivered c) ∧
      (∀ arrival, s.CanArrive c arrival → ∃ s', readable c s arrival = some s') ∧
      ∀ arrivals' s', run (readable c) s₀ arrivals' = some s' →
        receivedBytes arrivals' = receivedBytes arrivals → s'.msgqueue = s.msgqueue := by
  obtain ⟨hrecv, hqueue⟩ := readable_run accepted.receiving hr
  refine ⟨hqueue, ?_, ?_⟩
  · intro arrival possible
    obtain ⟨s', hs', -⟩ := readable_spec hrecv possible
    exact ⟨s', hs'⟩
  · intro arrivals' s' hr' hbytes
    obtain ⟨-, hqueue'⟩ := readable_run accepted.receiving hr'
    rw [hqueue', hqueue, hbytes]

/-- A heartbeat in two pieces with an interrupted read between them. -/
theorem packet_framing_heartbeat : ∃ s₀ s : State, s₀.Accepted 1 ∧ s₀.msgqueue = [] ∧
    s.msgqueue = [s₀.delivered 1 [0, 8, 0, 1, 0, 0, 0, 0]] := by
  have hlaunch : ((Server.launch .small [true] (Server.acceptOn 5 100)).bind fun s₀ =>
      (run (readable 1) s₀ [.bytes [0, 8, 0], .interrupted, .bytes [1, 0, 0, 0, 0]]).map fun _ =>
        (decide (s₀.Accepted 1), s₀.msgqueue)) = some (true, []) := by decide
  obtain ⟨s₀, -, hrun⟩ := Option.bind_eq_some_iff.mp hlaunch
  obtain ⟨s, hs, heq⟩ := Option.map_eq_some_iff.mp hrun
  obtain ⟨haccepted, hqueue⟩ := Prod.mk.inj heq
  have haccepted : s₀.Accepted 1 := of_decide_eq_true haccepted
  have hframes : packetFormat.frames [0, 8, 0, 1, 0, 0, 0, 0] = [[0, 8, 0, 1, 0, 0, 0, 0]] := by
    rw [Format.frames, Format.parse_frame (n := 0) (by decide) (by decide)]
    simp [Format.parse_short, packetFormat, pkgHeaderLen]
  have hqueue' := (packet_framing haccepted hs).1
  rw [hqueue, List.nil_append, show receivedBytes [.bytes [0, 8, 0], .interrupted,
    .bytes [1, 0, 0, 0, 0]] = [0, 8, 0, 1, 0, 0, 0, 0] from rfl, hframes] at hqueue'
  exact ⟨s₀, s, haccepted, hqueue, hqueue'⟩

end State

end MyNginx
