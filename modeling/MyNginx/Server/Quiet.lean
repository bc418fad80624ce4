import MyNginx.Server.Invariant

/-!
# Receiving is quiet

The functions of the receive path change the receive part of their connection,
blocks and the receive queue: nothing the pool, the timer thread or the senders
look at. A readable event may also close its connection; then the part before and
the part behind that call are quiet.
-/

namespace MyNginx

open Foundation

namespace State

variable {s s' t : State} {c d : ConnId} {env : Env} {msg : Message}

theorem stamped_congr (seq : ∀ c, (s'.conn c).sequence = (s.conn c).sequence)
    (use : s'.history.use = s.history.use) {head : MsgHeader} {origin : Nat} :
    s'.Stamped head origin ↔ s.Stamped head origin := by
  simp only [Stamped, Used, seq, use]

/-- A neutral step is described by what it keeps. -/
theorem Neutral.of_same (pool : s'.toPool = s.toPool) (kernel : s'.toKernel = s.toKernel)
    (conf : s'.conf = s.conf) (link : ∀ c, (s'.conn c).link = (s.conn c).link)
    (uses : s'.history.uses = s.history.uses)
    (blocks : s.InFlight → ∀ b msg, s'.messages.get b = some msg → s.Stamped msg.head msg.origin)
    (queue : s.InFlight → ∀ msg, some msg ∈ s'.msgqueue → s.Stamped msg.head msg.origin)
    (replies : s.InFlight → ∀ reply ∈ s'.sendMsgList, s.Stamped reply.head reply.origin)
    (timers : s.TimerHeads → s'.TimerHeads) : Neutral s s' := by
  simp only [History.uses, Prod.mk.injEq] at uses
  obtain ⟨huse, hcloses, huncounted, hrecycled, hrejected⟩ := uses
  have hseq : ∀ c, (s'.conn c).sequence = (s.conn c).sequence := fun c => (link_eq (link c)).2.1
  refine ⟨?_, by rw [pool], conf, by rw [kernel], by rw [kernel], link, ?_, ?_, timers⟩
  · have hhandle : s'.handle = s.handle := by
      funext c
      simp only [handle, (link_eq (link c)).1]
    simp only [State.view, State.standbys, pool, hhandle, huse, hcloses, huncounted, hrecycled, hrejected]
  · intro fd m c hm
    rw [kernel] at hm
    exact ⟨m, hm, .inl rfl⟩
  · intro hflight
    exact ⟨fun b msg hb => (stamped_congr hseq huse).mpr (blocks hflight b msg hb),
      fun msg hmsg => (stamped_congr hseq huse).mpr (queue hflight msg hmsg),
      fun reply hreply => (stamped_congr hseq huse).mpr (replies hflight reply hreply)⟩

/-- Blocks without the one a connection owns. -/
theorem get_withoutMsgrecv {b : Nat} (h : (s.withoutMsgrecv c).get b = some msg) :
    s.messages.get b = some msg := by
  simp only [withoutMsgrecv] at h
  split at h
  · exact Heap.get_release_some h
  · exact h

/-- Changing members of a connection that the pool does not look at. -/
theorem neutral_modifyConn {f : Connection → Connection} (hf : ∀ conn, (f conn).link = conn.link) :
    Neutral s (s.modifyConn c f) := by
  refine .of_same rfl rfl rfl ?_ rfl (fun h => h.blocks) (fun h => h.queue) (fun h => h.replies) id
  intro d
  by_cases hd : d = c
  · simp [hd, hf]
  · simp [hd]

/-- Changing the receive part of connections, blocks and the receive queue, with
messages that are stamped. -/
theorem quiet_incoming (pool : s'.toPool = s.toPool) (kernel : s'.toKernel = s.toKernel)
    (conf : s'.conf = s.conf) (history : s'.history = s.history)
    (replies : s'.toSendQueue = s.toSendQueue) (timers : s'.toTimerQueue = s.toTimerQueue)
    (conn : ∀ d, ∃ incoming, s'.conn d = { s.conn d with toIncoming := incoming })
    (blocks : s.InFlight → ∀ b msg, s'.messages.get b = some msg → s.Stamped msg.head msg.origin)
    (queue : s.InFlight → ∀ msg, some msg ∈ s'.msgqueue → s.Stamped msg.head msg.origin) :
    Quiet s s' := by
  have hconn : ∀ d, (s'.conn d).link = (s.conn d).link ∧ (s'.conn d).life = (s.conn d).life ∧
      (s'.conn d).toOutgoing = (s.conn d).toOutgoing := by
    intro d
    obtain ⟨incoming, hd⟩ := conn d
    rw [hd]
    exact ⟨rfl, rfl, rfl⟩
  have hneutral : Neutral s s' := by
    refine .of_same pool kernel conf (fun d => (hconn d).1) (by rw [history]) blocks queue ?_ ?_
    · rw [replies]
      exact fun h => h.replies
    · simp only [TimerHeads, Used, timers, history]
      exact id
  exact ⟨⟨hneutral, fun d => (hconn d).2.1⟩, fun d => (hconn d).2.2, replies, by rw [history],
    by rw [history]⟩

theorem quiet_modifyConn {f : Connection → Connection}
    (hf : ∀ conn, ∃ incoming, f conn = { conn with toIncoming := incoming }) :
    Quiet s (s.modifyConn c f) := by
  refine quiet_incoming rfl rfl rfl rfl rfl rfl (fun d => ?_) (fun h => h.blocks) fun h => h.queue
  by_cases hd : d = c
  · obtain ⟨incoming, hincoming⟩ := hf (s.conn c)
    exact ⟨incoming, by simp [hd, hincoming]⟩
  · exact ⟨(s.conn d).toIncoming, by simp [hd]⟩

theorem quiet_setMemory (memory : Heap (List UInt8)) : Quiet s (s.setMemory memory) :=
  quiet_incoming rfl rfl rfl rfl rfl rfl (fun _ => ⟨_, rfl⟩) (fun h => h.blocks) fun h => h.queue

/-- Writing the receive part of one connection and the message blocks. -/
theorem quiet_update {incoming : Incoming} {blocks : Blocks}
    (old : s.InFlight → ∀ b msg, blocks.messages.get b = some msg →
      s.Stamped msg.head msg.origin) :
    Quiet s { s with
      toBlocks := blocks
      conn := Function.update s.conn c { s.conn c with toIncoming := incoming } } := by
  refine quiet_incoming rfl rfl rfl rfl rfl rfl (fun d => ?_) old fun h => h.queue
  by_cases hd : d = c
  · exact ⟨incoming, by simp [hd]⟩
  · exact ⟨(s.conn d).toIncoming, by simp [hd]⟩

theorem quiet_forgetMsgrecv : Quiet s (s.forgetMsgrecv c) :=
  quiet_update fun h b msg hb => h.blocks b msg (get_withoutMsgrecv hb)

theorem quiet_putToStateMach : Quiet s (s.putToStateMach c) :=
  quiet_update fun h b msg hb => h.blocks b msg (get_withoutMsgrecv hb)

theorem quiet_allocHeader : Quiet s (s.allocHeader c) := quiet_update fun h => h.blocks

/-- The new message block is stamped with the present. -/
theorem quiet_allocMessage (used : s.Used c) {header : List UInt8} {n : Nat} :
    Quiet s (s.allocMessage c header n) := by
  refine quiet_update fun h b msg hb => ?_
  by_cases hnew : b = (s.withoutMsgrecv c).next
  · simp only [hnew, Heap.get_alloc_self] at hb
    obtain rfl := Option.some.inj hb
    exact ⟨used, Nat.le_refl _, Nat.le_refl _, fun _ => rfl⟩
  · simp only [Heap.get_alloc_ne hnew] at hb
    exact h.blocks b msg (get_withoutMsgrecv hb)

theorem quiet_advance {n : Nat} : Quiet s (s.advance c n) :=
  quiet_modifyConn fun _ => ⟨_, rfl⟩

theorem quiet_freeMemory {b : Option Nat} (h : s.freeMemory b = some s') : Quiet s s' := by
  cases b with
  | none =>
      obtain rfl := Option.some.inj h
      exact .refl s
  | some b =>
      obtain ⟨memory, -, rfl⟩ := Option.map_eq_some_iff.mp h
      exact quiet_setMemory memory

/-- Received bytes change no message header. -/
theorem quiet_store {buf : RecvBuf} {bytes : List UInt8} (h : s.store buf bytes = some s') :
    Quiet s s' := by
  cases buf with
  | null => cases h
  | header p =>
      obtain ⟨memory, -, rfl⟩ := Option.map_eq_some_iff.mp h
      exact quiet_setMemory memory
  | message p =>
      obtain ⟨messages, hm, rfl⟩ := Option.map_eq_some_iff.mp h
      obtain ⟨old, new, hold, hnew, rfl⟩ := Heap.update_eq_some.mp hm
      refine quiet_incoming rfl rfl rfl rfl rfl rfl (fun _ => ⟨_, rfl⟩) (fun hf b msg hb => ?_)
        fun hf => hf.queue
      by_cases hb' : b = p.block
      · simp only [setMessages_toBlocks, hb', Heap.get_set_self] at hb
        obtain rfl := Option.some.inj hb
        split at hnew
        · obtain rfl := Option.some.inj hnew
          exact hf.blocks p.block old hold
        · cases hnew
      · simp only [setMessages_toBlocks, Heap.get_set_ne hb'] at hb
        exact hf.blocks b msg hb

/-- A read is quiet or closes the connection. -/
theorem recvproc_cases {buf : RecvBuf} {len : Nat} {r : Option Nat}
    (h : s.recvproc c buf len env = some (s', r)) :
    Quiet s s' ∨ s.closeAcceptedConnection c false env = some s' ∧ r = none := by
  simp only [recvproc] at h
  split at h
  · cases h
  · obtain ⟨t, ht, heq⟩ := Option.map_eq_some_iff.mp h
    obtain ⟨rfl, -⟩ := Prod.mk.inj heq
    exact .inl (quiet_store ht)
  · obtain ⟨rfl, -⟩ := Prod.mk.inj (Option.some.inj h)
    exact .inl (.refl s)
  · obtain ⟨rfl, -⟩ := Prod.mk.inj (Option.some.inj h)
    exact .inl (.refl s)
  · obtain ⟨t, ht, heq⟩ := Option.map_eq_some_iff.mp h
    obtain ⟨rfl, rfl⟩ := Prod.mk.inj heq
    exact .inr ⟨ht, rfl⟩
  · obtain ⟨rfl, -⟩ := Prod.mk.inj (Option.some.inj h)
    exact .inl (.refl s)
  · obtain ⟨rfl, -⟩ := Prod.mk.inj (Option.some.inj h)
    exact .inl (.refl s)
  · obtain ⟨t, ht, heq⟩ := Option.map_eq_some_iff.mp h
    obtain ⟨rfl, rfl⟩ := Prod.mk.inj heq
    exact .inr ⟨ht, rfl⟩

/-- The message handed over is one that was being received. -/
theorem quiet_inMsgRecv {msg : Option Message}
    (h : ∀ m, msg = some m → ∃ b, s.messages.get b = some m) : Quiet s (s.inMsgRecv msg) := by
  refine quiet_incoming rfl rfl rfl rfl rfl rfl (fun _ => ⟨_, rfl⟩) (fun h => h.blocks) ?_
  intro hf m hm
  rcases List.mem_append.mp hm with hm | hm
  · exact hf.queue m hm
  · obtain ⟨b, hb⟩ := h m (List.mem_singleton.mp hm).symm
    exact hf.blocks b m hb

theorem quiet_pkgBodyProc (h : s.pkgBodyProc c = some s') : Quiet s s' := by
  simp only [pkgBodyProc] at h
  obtain ⟨t, ht, rfl⟩ := Option.map_eq_some_iff.mp h
  have hqueue : Quiet s (s.inMsgRecv ((s.conn c).pMsgrecv.bind s.messages.get)) :=
    quiet_inMsgRecv fun m hm => by
      obtain ⟨b, -, hb⟩ := Option.bind_eq_some_iff.mp hm
      exact ⟨b, hb⟩
  have hmodify := hqueue.trans (quiet_modifyConn (c := c)
    (f := fun conn => { conn with pRecvbuf := .null }) fun _ => ⟨_, rfl⟩)
  exact ((hmodify.trans quiet_forgetMsgrecv).trans (quiet_freeMemory ht)).trans
    quiet_putToStateMach

theorem quiet_pkgHeaderProc (used : s.Used c) (h : s.pkgHeaderProc c = some s') :
    Quiet s s' := by
  simp only [pkgHeaderProc] at h
  obtain ⟨b, -, h⟩ := Option.bind_eq_some_iff.mp h
  obtain ⟨header, -, h⟩ := Option.bind_eq_some_iff.mp h
  split at h
  · obtain ⟨t, ht, rfl⟩ := Option.map_eq_some_iff.mp h
    exact (quiet_freeMemory ht).trans (quiet_modifyConn fun _ => ⟨_, rfl⟩)
  · split at h
    · exact (quiet_allocMessage used).trans (quiet_pkgBodyProc h)
    · obtain rfl := Option.some.inj h
      exact (quiet_allocMessage used).trans (quiet_modifyConn fun _ => ⟨_, rfl⟩)

/-- A readable event is quiet, or closes the connection between two quiet parts. -/
inductive Reads (c : ConnId) (env : Env) (s s' : State) : Prop
  | quiet (h : Quiet s s')
  | closed {t u : State} (before : Quiet s t)
      (close : t.closeAcceptedConnection c false env = some u) (after : Quiet u s')

theorem receiveHeader_reads (used : s.Used c) (h : s.receiveHeader c env = some s') :
    Reads c env s s' := by
  simp only [receiveHeader, pkgHeaderRecv] at h
  by_cases hstate : (s.conn c).curstat ≠ .hdInit ∧ (s.conn c).curstat ≠ .hdRecving
  · rw [if_pos hstate] at h
    obtain rfl := Option.some.inj h
    exact .quiet (.refl s)
  rw [if_neg hstate] at h
  cases hrecv : s.recvproc c (s.conn c).pRecvbuf (s.conn c).recvlen env with
  | none => simp [hrecv] at h
  | some result =>
      obtain ⟨t, r⟩ := result
      have hcases := recvproc_cases hrecv
      cases r with
      | none =>
          simp only [hrecv, Option.some.injEq] at h
          subst h
          rcases hcases with hquiet | ⟨hclose, -⟩
          · exact .quiet hquiet
          · exact .closed (.refl s) hclose (.refl t)
      | some n =>
          simp only [hrecv] at h
          have hquiet : Quiet s (t.advance c n) := by
            rcases hcases with hquiet | ⟨-, hr⟩
            · exact hquiet.trans quiet_advance
            · cases hr
          split at h
          · exact .quiet (hquiet.trans
              (quiet_pkgHeaderProc (hquiet.used_iff.mpr used) h))
          · obtain rfl := Option.some.inj h
            exact .quiet (hquiet.trans (quiet_modifyConn fun _ => ⟨_, rfl⟩))

theorem receiveBody_reads (h : s.receiveBody c env = some s') : Reads c env s s' := by
  simp only [receiveBody, pkgBodyRecv] at h
  by_cases hstate : (s.conn c).curstat ≠ .bdInit ∧ (s.conn c).curstat ≠ .bdRecving
  · rw [if_pos hstate] at h
    cases hfree : (s.forgetMsgrecv c).freeMemory (s.conn c).pHeaderinfo with
    | none => simp [hfree] at h
    | some t =>
        simp only [hfree, Option.map_some, Option.some.injEq] at h
        subst h
        exact .quiet (quiet_forgetMsgrecv.trans (quiet_freeMemory hfree))
  rw [if_neg hstate] at h
  cases hrecv : s.recvproc c (s.conn c).pRecvbuf (s.conn c).recvlen env with
  | none => simp [hrecv] at h
  | some result =>
      obtain ⟨t, r⟩ := result
      have hcases := recvproc_cases hrecv
      cases r with
      | none =>
          simp only [hrecv, Option.some.injEq] at h
          subst h
          rcases hcases with hquiet | ⟨hclose, -⟩
          · exact .quiet (hquiet.trans quiet_forgetMsgrecv)
          · exact .closed (.refl s) hclose quiet_forgetMsgrecv
      | some n =>
          simp only [hrecv] at h
          have hquiet : Quiet s (t.advance c n) := by
            rcases hcases with hquiet | ⟨-, hr⟩
            · exact hquiet.trans quiet_advance
            · cases hr
          split at h
          · exact .quiet (hquiet.trans (quiet_pkgBodyProc h))
          · obtain rfl := Option.some.inj h
            exact .quiet (hquiet.trans (quiet_modifyConn fun _ => ⟨_, rfl⟩))

theorem readable_reads (used : s.Used c)
    (h : s.eventReadableRequestHandler c env = some s') : Reads c env s s' := by
  simp only [eventReadableRequestHandler] at h
  split at h
  · have hused : (s.allocHeader c).Used c := quiet_allocHeader.used_iff.mpr used
    cases receiveHeader_reads hused h with
    | quiet hn => exact .quiet (quiet_allocHeader.trans hn)
    | closed before close after => exact .closed (quiet_allocHeader.trans before) close after
  · split at h
    · obtain rfl := Option.some.inj h
      exact .quiet (.refl s)
    · exact receiveHeader_reads used h
  · split at h
    · obtain rfl := Option.some.inj h
      exact .quiet (.refl s)
    · exact receiveBody_reads h
  · split at h
    · obtain rfl := Option.some.inj h
      exact .quiet (.refl s)
    · exact receiveBody_reads h

end State

end MyNginx
