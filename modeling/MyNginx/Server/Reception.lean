import MyNginx.Server.Regions

/-!
# What a readable event comes to

A readable event calls `recv` once, unless nothing is wanted, and goes on with the number of
bytes that have been received. `Receives` says what `recvproc` does. `readableHandover` is
the event up to the point where `pkg_body_proc` hands a message over, if it gets there, and
`Reception` says where the receive state machine is then.
-/

namespace MyNginx

open Foundation

/-- The number of bytes that come with an answer. -/
def RecvAnswer.size : RecvAnswer → Nat
  | .data bytes => bytes.length
  | .zero _ | .failed _ => 0

/-- `recv` answers that the connection is over. -/
def RecvAnswer.Closes : RecvAnswer → Prop
  | .data _ => False
  | .zero errno => errno ≠ .ok ∧ errno ≠ .eagain
  | .failed errno => errno ≠ .eintr ∧ errno ≠ .eagain

instance : DecidablePred RecvAnswer.Closes
  | .data _ => instDecidableFalse
  | .zero _ | .failed _ => inferInstanceAs (Decidable (_ ∧ _))

namespace State

variable {s s' t : State} {c d : ConnId} {env : Env}

/-- What `recvproc` does, and what it returns. -/
inductive Receives (s : State) (c : ConnId) (buf : RecvBuf) (len : Nat) (env : Env) :
    State → Option Nat → Prop
  | bytes {bytes : List UInt8} {t : State} (opened : s.openFds (s.conn c).fd = true)
      (recv : env.recv = .data bytes) (pos : 1 ≤ bytes.length) (le : bytes.length ≤ len)
      (stored : s.store buf bytes = some t) : Receives s c buf len env t (some bytes.length)
  | nothing (opened : s.openFds (s.conn c).fd = true) (empty : env.recv.size = 0)
      (stays : ¬ env.recv.Closes) : Receives s c buf len env s (some 0)
  | again (opened : s.openFds (s.conn c).fd = true) (empty : env.recv.size = 0)
      (stays : ¬ env.recv.Closes) : Receives s c buf len env s none
  | closing {t : State} (gone : s.openFds (s.conn c).fd = true →
        env.recv.size = 0 ∧ env.recv.Closes)
      (close : s.closeAcceptedConnection c false env = some t) : Receives s c buf len env t none

theorem recvproc_receives {buf : RecvBuf} {len : Nat} {r : Option Nat}
    (h : s.recvproc c buf len env = some (t, r)) : Receives s c buf len env t r := by
  have hclosing : (s.openFds (s.conn c).fd = true → env.recv.size = 0 ∧ env.recv.Closes) →
      (s.closeAcceptedConnection c false env).map (fun u => (u, (none : Option Nat))) =
        some (t, r) → Receives s c buf len env t r := by
    intro hgone hmap
    obtain ⟨u, hclose, heq⟩ := Option.map_eq_some_iff.mp hmap
    obtain ⟨rfl, rfl⟩ := Prod.mk.inj heq
    exact .closing hgone hclose
  by_cases hopen : s.openFds (s.conn c).fd = true
  · cases hrecv : env.recv with
    | data bytes =>
        by_cases hfits : 1 ≤ bytes.length ∧ bytes.length ≤ len
        · have hanswer : s.sysRecv (s.conn c).fd len env.recv = some (.data bytes) := by
            simp [sysRecv, hopen, hrecv, hfits]
          simp only [recvproc, hanswer] at h
          obtain ⟨u, hstore, heq⟩ := Option.map_eq_some_iff.mp h
          obtain ⟨rfl, rfl⟩ := Prod.mk.inj heq
          exact .bytes hopen hrecv hfits.1 hfits.2 hstore
        · have hanswer : s.sysRecv (s.conn c).fd len env.recv = none := by
            simp [sysRecv, hopen, hrecv, hfits]
          simp only [recvproc, hanswer] at h
          cases h
    | zero errno =>
        have hanswer : s.sysRecv (s.conn c).fd len env.recv = some (.zero errno) := by
          simp [sysRecv, hopen, hrecv]
        have hempty : env.recv.size = 0 := by rw [hrecv, RecvAnswer.size]
        have hcloses : env.recv.Closes ↔ errno ≠ .ok ∧ errno ≠ .eagain := by
          rw [hrecv, RecvAnswer.Closes]
        simp only [recvproc, hanswer] at h
        cases errno with
        | ok =>
            obtain ⟨rfl, rfl⟩ := Prod.mk.inj (Option.some.inj h)
            exact .nothing hopen hempty (by simp [hcloses])
        | eagain =>
            obtain ⟨rfl, rfl⟩ := Prod.mk.inj (Option.some.inj h)
            exact .again hopen hempty (by simp [hcloses])
        | eintr | econnreset | enosys | other =>
            exact hclosing (fun _ => ⟨hempty, by simp [hcloses]⟩) h
    | failed errno =>
        have hanswer : s.sysRecv (s.conn c).fd len env.recv = some (.failed errno) := by
          simp [sysRecv, hopen, hrecv]
        have hempty : env.recv.size = 0 := by rw [hrecv, RecvAnswer.size]
        have hcloses : env.recv.Closes ↔ errno ≠ .eintr ∧ errno ≠ .eagain := by
          rw [hrecv, RecvAnswer.Closes]
        simp only [recvproc, hanswer] at h
        cases errno with
        | eintr =>
            obtain ⟨rfl, rfl⟩ := Prod.mk.inj (Option.some.inj h)
            exact .nothing hopen hempty (by simp [hcloses])
        | eagain =>
            obtain ⟨rfl, rfl⟩ := Prod.mk.inj (Option.some.inj h)
            exact .again hopen hempty (by simp [hcloses])
        | ok | econnreset | enosys | other =>
            exact hclosing (fun _ => ⟨hempty, by simp [hcloses]⟩) h
  · have hclosed : s.sysRecv (s.conn c).fd len env.recv = some (.failed .other) := if_neg hopen
    simp only [recvproc, hclosed] at h
    exact hclosing (fun hopened => absurd hopened hopen) h

/-- The bytes that the connection receives by the answer to a `recv`. -/
def received (s : State) (c : ConnId) (env : Env) : Nat :=
  if s.openFds (s.conn c).fd = true then env.recv.size else 0

theorem Receives.received {buf : RecvBuf} {len : Nat} {r : Option Nat}
    (h : Receives s c buf len env t r) : s.received c env = r.getD 0 := by
  cases h with
  | bytes opened recv pos le stored => rw [State.received, if_pos opened, recv]; rfl
  | nothing opened empty stays => rw [State.received, if_pos opened, empty]; rfl
  | again opened empty stays => rw [State.received, if_pos opened, empty]; rfl
  | closing gone close =>
      rw [State.received]
      split
      next opened => exact (gone opened).1
      next => rfl

/-! ### Up to the handover of a message -/

/-- `pkg_header_proc` in front of its call of `pkg_body_proc`, and whether it gets there. -/
def headerHandover (s : State) (c : ConnId) : Option (State × Bool) :=
  (s.conn c).pHeaderinfo.bind fun headerinfo =>
  (s.memory.get headerinfo).bind fun header =>
  let pkgSize := pkgLen header
  if pkgSize < pkgHeaderLen ∨ pkgSize > pkgMaxLength - 1000 then
    (s.freeMemory headerinfo).map fun s =>
      (s.modifyConn c fun conn => { conn with curstat := .hdInit }, false)
  else
    let pkgBodySize := pkgSize - pkgHeaderLen
    let s := s.allocMessage c header pkgBodySize
    if pkgBodySize = 0 then some (s, true)
    else some (s.modifyConn c fun conn => { conn with curstat := .bdInit }, false)

/-- The header states in front of `pkg_body_proc`. -/
def receiveHeaderHandover (s : State) (c : ConnId) (env : Env) : Option (State × Bool) :=
  let supposeSize := (s.conn c).recvlen
  match s.pkgHeaderRecv c env with
  | none => none
  | some (s, none) => some (s, false)
  | some (s, some recvSize) =>
      if recvSize = supposeSize then s.headerHandover c
      else some (s.modifyConn c fun conn => { conn with curstat := .hdRecving }, false)

/-- The body states in front of `pkg_body_proc`. -/
def receiveBodyHandover (s : State) (c : ConnId) (env : Env) : Option (State × Bool) :=
  let supposeSize := (s.conn c).recvlen
  match s.pkgBodyRecv c env with
  | none => none
  | some (s, none) => some (s, false)
  | some (s, some recvSize) =>
      if recvSize = supposeSize then some (s, true)
      else some (s.modifyConn c fun conn => { conn with curstat := .bdRecving }, false)

/-- A readable event in front of `pkg_body_proc`, and whether it gets there. -/
def readableHandover (s : State) (c : ConnId) (env : Env) : Option (State × Bool) :=
  if (s.conn c).curstat ≠ .hdInit ∧ (s.conn c).recvlen = 0 then some (s, false)
  else if s.InBodyState c then (s.atRecv c).receiveBodyHandover c env
  else (s.atRecv c).receiveHeaderHandover c env

/-- The call of `pkg_body_proc`, if the event gets there. -/
def handOver (c : ConnId) (r : State × Bool) : Option State :=
  if r.2 then r.1.pkgBodyProc c else some r.1

theorem pkgHeaderProc_eq (s : State) (c : ConnId) :
    s.pkgHeaderProc c = (s.headerHandover c).bind (handOver c) := by
  simp only [pkgHeaderProc, headerHandover, Option.bind_assoc]
  refine congrArg _ (funext fun headerinfo => congrArg _ (funext fun header => ?_))
  split
  · rw [Option.bind_map, Option.map_eq_bind]
    rfl
  · split <;> rfl

theorem receiveHeader_eq (s : State) (c : ConnId) (env : Env) :
    s.receiveHeader c env = (s.receiveHeaderHandover c env).bind (handOver c) := by
  rw [receiveHeader, receiveHeaderHandover]
  cases s.pkgHeaderRecv c env with
  | none => rfl
  | some result =>
      obtain ⟨t, r⟩ := result
      cases r with
      | none => rfl
      | some recvSize =>
          dsimp only
          split
          · exact pkgHeaderProc_eq t c
          · rfl

theorem receiveBody_eq (s : State) (c : ConnId) (env : Env) :
    s.receiveBody c env = (s.receiveBodyHandover c env).bind (handOver c) := by
  rw [receiveBody, receiveBodyHandover]
  cases s.pkgBodyRecv c env with
  | none => rfl
  | some result =>
      obtain ⟨t, r⟩ := result
      cases r with
      | none => rfl
      | some recvSize =>
          dsimp only
          split <;> rfl

theorem eventReadableRequestHandler_eq (s : State) (c : ConnId) (env : Env) :
    s.eventReadableRequestHandler c env = (s.readableHandover c env).bind (handOver c) := by
  rw [readableHandover]
  split
  next hidle =>
    cases hcur : (s.conn c).curstat with
    | hdInit => exact absurd hcur hidle.1
    | hdRecving | bdInit | bdRecving =>
        simp [eventReadableRequestHandler, handOver, hcur, hidle.2]
  next hidle =>
    rw [readable_atRecv env fun hmid hzero => hidle ⟨hmid, hzero⟩]
    split
    · exact receiveBody_eq _ c env
    · exact receiveHeader_eq _ c env

/-- Where a readable event is in front of `pkg_body_proc`. -/
inductive Reception (s : State) (c : ConnId) (env : Env) : State → Bool → Prop
  | idle (state : (s.conn c).curstat ≠ .hdInit) (unwanted : (s.conn c).recvlen = 0) :
      Reception s c env s false
  | stopped {t : State}
      (recv : Receives (s.atRecv c) c ((s.atRecv c).conn c).pRecvbuf
        ((s.atRecv c).conn c).recvlen env t none) {u : State}
      (last : u = t ∨ s.InBodyState c ∧ u = t.forgetMsgrecv c) : Reception s c env u false
  | part {t : State} {n : Nat} {state : CurStat}
      (recv : Receives (s.atRecv c) c ((s.atRecv c).conn c).pRecvbuf
        ((s.atRecv c).conn c).recvlen env t (some n))
      (short : n ≠ ((s.atRecv c).conn c).recvlen)
      (next : s.InBodyState c ∧ state = .bdRecving ∨ ¬ s.InBodyState c ∧ state = .hdRecving) :
      Reception s c env ((t.advance c n).modifyConn c fun conn => { conn with curstat := state })
        false
  | header {t : State} {n : Nat} (state : ¬ s.InBodyState c)
      (recv : Receives (s.atRecv c) c ((s.atRecv c).conn c).pRecvbuf
        ((s.atRecv c).conn c).recvlen env t (some n))
      (full : n = ((s.atRecv c).conn c).recvlen) {v : State} {hands : Bool}
      (proc : (t.advance c n).headerHandover c = some (v, hands)) : Reception s c env v hands
  | body {t : State} {n : Nat} (state : s.InBodyState c)
      (recv : Receives (s.atRecv c) c ((s.atRecv c).conn c).pRecvbuf
        ((s.atRecv c).conn c).recvlen env t (some n))
      (full : n = ((s.atRecv c).conn c).recvlen) : Reception s c env (t.advance c n) true

theorem atRecv_curstat : ((s.atRecv c).conn c).curstat = (s.conn c).curstat := by
  rw [atRecv]
  split
  · simp
  · rfl

theorem receiveHeaderHandover_reception {v : State} {hands : Bool} (state : ¬ s.InBodyState c)
    (h : (s.atRecv c).receiveHeaderHandover c env = some (v, hands)) :
    Reception s c env v hands := by
  have hstate : ¬ (((s.atRecv c).conn c).curstat ≠ .hdInit ∧
      ((s.atRecv c).conn c).curstat ≠ .hdRecving) := by
    rw [atRecv_curstat]
    intro hneither
    cases hcur : (s.conn c).curstat with
    | hdInit => exact hneither.1 hcur
    | hdRecving => exact hneither.2 hcur
    | bdInit => exact state (.inl hcur)
    | bdRecving => exact state (.inr hcur)
  simp only [receiveHeaderHandover, pkgHeaderRecv, if_neg hstate] at h
  cases hrecv : (s.atRecv c).recvproc c ((s.atRecv c).conn c).pRecvbuf
      ((s.atRecv c).conn c).recvlen env with
  | none => simp [hrecv] at h
  | some result =>
      obtain ⟨t, r⟩ := result
      have hreceives := recvproc_receives hrecv
      cases r with
      | none =>
          simp only [hrecv, Option.some.injEq] at h
          obtain ⟨rfl, rfl⟩ := Prod.mk.inj h
          exact .stopped hreceives (.inl rfl)
      | some n =>
          simp only [hrecv] at h
          split at h
          next hfull => exact .header state hreceives hfull h
          next hshort =>
            obtain ⟨rfl, rfl⟩ := Prod.mk.inj (Option.some.inj h)
            exact .part hreceives hshort (.inr ⟨state, rfl⟩)

theorem receiveBodyHandover_reception {v : State} {hands : Bool} (state : s.InBodyState c)
    (h : (s.atRecv c).receiveBodyHandover c env = some (v, hands)) :
    Reception s c env v hands := by
  have hstate : ¬ (((s.atRecv c).conn c).curstat ≠ .bdInit ∧
      ((s.atRecv c).conn c).curstat ≠ .bdRecving) := by
    rw [atRecv_curstat]
    exact or_iff_not_and_not.mp state
  simp only [receiveBodyHandover, pkgBodyRecv, if_neg hstate] at h
  cases hrecv : (s.atRecv c).recvproc c ((s.atRecv c).conn c).pRecvbuf
      ((s.atRecv c).conn c).recvlen env with
  | none => simp [hrecv] at h
  | some result =>
      obtain ⟨t, r⟩ := result
      have hreceives := recvproc_receives hrecv
      cases r with
      | none =>
          simp only [hrecv, Option.some.injEq] at h
          obtain ⟨rfl, rfl⟩ := Prod.mk.inj h
          exact .stopped hreceives (.inr ⟨state, rfl⟩)
      | some n =>
          simp only [hrecv] at h
          split at h
          next hfull =>
            obtain ⟨rfl, rfl⟩ := Prod.mk.inj (Option.some.inj h)
            exact .body state hreceives hfull
          next hshort =>
            obtain ⟨rfl, rfl⟩ := Prod.mk.inj (Option.some.inj h)
            exact .part hreceives hshort (.inl ⟨state, rfl⟩)

theorem readableHandover_reception {v : State} {hands : Bool}
    (h : s.readableHandover c env = some (v, hands)) : Reception s c env v hands := by
  rw [readableHandover] at h
  split at h
  next hidle =>
    obtain ⟨rfl, rfl⟩ := Prod.mk.inj (Option.some.inj h)
    exact .idle hidle.1 hidle.2
  split at h
  next state => exact receiveBodyHandover_reception state h
  next state => exact receiveHeaderHandover_reception state h

/-- A readable event gets to `pkg_body_proc`, or it is over there. -/
theorem readable_reception (h : s.eventReadableRequestHandler c env = some s') :
    ∃ v hands, s.readableHandover c env = some (v, hands) ∧ Reception s c env v hands ∧
      handOver c (v, hands) = some s' := by
  rw [eventReadableRequestHandler_eq] at h
  obtain ⟨⟨v, hands⟩, hhandover, hlast⟩ := Option.bind_eq_some_iff.mp h
  exact ⟨v, hands, hhandover, readableHandover_reception hhandover, hlast⟩

/-- An open connection in the middle of a packet wants something. -/
theorem Regular.wanted (regular : s.Regular) (hopen : s.Open c)
    (mid : (s.conn c).curstat ≠ .hdInit) : (s.conn c).recvlen ≠ 0 := by
  by_cases state : s.InBodyState c
  · obtain ⟨p, hwriting⟩ := regular.writing c hopen state
    exact hwriting.wanted
  · obtain ⟨b, hholding⟩ := regular.headers.holding c hopen mid
    cases hholding with
    | header _ inside =>
        have hshort := inside.short
        have hwanted := inside.wanted
        omega
    | body hbody => exact absurd hbody state

theorem receiveOnly_atRecv (s : State) (c : ConnId) : ReceiveOnly c s (s.atRecv c) := by
  rw [atRecv]
  split
  · exact ⟨_, _, _, rfl⟩
  · exact .refl c s

/-- Bytes change the receive part only. -/
theorem Receives.receiveOnly {buf : RecvBuf} {len n : Nat}
    (h : Receives s c buf len env t (some n)) : ReceiveOnly c s t ∧ ¬ env.recv.Closes := by
  cases h with
  | bytes opened recv pos le stored =>
      exact ⟨receiveOnly_store stored, by simp [recv, RecvAnswer.Closes]⟩
  | nothing opened empty stays => exact ⟨.refl c s, stays⟩

theorem receiveOnly_headerHandover {v : State} {hands : Bool}
    (h : s.headerHandover c = some (v, hands)) : ReceiveOnly c s v := by
  simp only [headerHandover] at h
  obtain ⟨b, -, h⟩ := Option.bind_eq_some_iff.mp h
  obtain ⟨header, -, h⟩ := Option.bind_eq_some_iff.mp h
  have halloc : ∀ n, ReceiveOnly c s (s.allocMessage c header n) := fun n => ⟨_, _, _, rfl⟩
  split at h
  · obtain ⟨t, ht, heq⟩ := Option.map_eq_some_iff.mp h
    obtain ⟨rfl, -⟩ := Prod.mk.inj heq
    exact (receiveOnly_freeMemory ht).trans (receiveOnly_modifyConn fun _ => ⟨_, rfl⟩)
  split at h
  · obtain ⟨rfl, -⟩ := Prod.mk.inj (Option.some.inj h)
    exact halloc _
  · obtain ⟨rfl, -⟩ := Prod.mk.inj (Option.some.inj h)
    exact (halloc _).trans (receiveOnly_modifyConn fun _ => ⟨_, rfl⟩)

theorem receiveOnly_handOver {v : State} {hands : Bool} (h : handOver c (v, hands) = some s') :
    ReceiveOnly c v s' := by
  rw [handOver] at h
  split at h
  · exact receiveOnly_pkgBodyProc h
  · obtain rfl := Option.some.inj h
    exact .refl c v

/-- A read changes the receive part only, or `recv` fails or answers that the connection is
over, which is then closed in between. -/
theorem Reception.frame {v : State} {hands : Bool} (h : Reception s c env v hands)
    (wanted : (s.conn c).curstat ≠ .hdInit → (s.conn c).recvlen ≠ 0) :
    ReceiveOnly c s v ∧ ¬ env.recv.Closes ∨
      (s.openFds (s.conn c).fd = true → env.recv.Closes) ∧
        ∃ t, (s.atRecv c).closeAcceptedConnection c false env = some t ∧ ReceiveOnly c t v := by
  have hat := receiveOnly_atRecv s c
  have hadvance : ∀ (t : State) (n : Nat), ReceiveOnly c t (t.advance c n) :=
    fun t n => receiveOnly_modifyConn fun _ => ⟨_, rfl⟩
  cases h with
  | idle state unwanted => exact absurd unwanted (wanted state)
  | @stopped t recv u last =>
      have hlast : ReceiveOnly c t v := by
        rcases last with rfl | ⟨-, rfl⟩
        · exact .refl c v
        · exact receiveOnly_forgetMsgrecv
      cases recv with
      | again opened empty stays => exact .inl ⟨hat.trans hlast, stays⟩
      | closing gone close =>
          refine .inr ⟨fun opened => (gone ?_).2, t, close, hlast⟩
          obtain ⟨blocks, queue, incoming, heq⟩ := hat
          rw [heq]
          simpa using opened
  | part recv short next =>
      have hrecv := recv.receiveOnly
      exact .inl ⟨((hat.trans hrecv.1).trans (hadvance _ _)).trans
        (receiveOnly_modifyConn fun _ => ⟨_, rfl⟩), hrecv.2⟩
  | header state recv full proc =>
      have hrecv := recv.receiveOnly
      exact .inl ⟨((hat.trans hrecv.1).trans (hadvance _ _)).trans
        (receiveOnly_headerHandover proc), hrecv.2⟩
  | body state recv full =>
      have hrecv := recv.receiveOnly
      exact .inl ⟨(hat.trans hrecv.1).trans (hadvance _ _), hrecv.2⟩

/-- A connection that the timer thread has marked is left to it. -/
theorem closeAcceptedConnection_marked (marked : (s.conn c).istimeout = true)
    (h : s.closeAcceptedConnection c false env = some s') : s' = s := by
  simp only [closeAcceptedConnection, marked] at h
  split at h <;> exact (Option.some.inj h).symm

end State

end MyNginx
