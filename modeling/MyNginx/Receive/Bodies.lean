import MyNginx.Receive.Headers

/-!
# Message blocks

The message that is being received stands in a block that `p_msgrecv` owns, and
`p_recvbuf` points into it. When `p_msgrecv` lets the block go while a body is being
received, `p_recvbuf` is left dangling; no block is ever at that address again, so what a
connection writes stays in the block it owns.
-/

namespace MyNginx

open Foundation

namespace State

variable {s s' t : State} {c d : ConnId} {b : Nat} {env : Env}

/-- There was a message block of this number, and it is gone. -/
def Gone (s : State) (b : Nat) : Prop := b < s.messages.next ∧ s.messages.get b = none

/-- The message blocks as the connection `c` has them: its own block is live, and
`p_recvbuf` does not point into the block of somebody else. -/
structure Minds (s : State) (c : ConnId) : Prop where
  live : ∀ b, (s.conn c).pMsgrecv = some b → b < s.messages.next ∧ s.messages.get b ≠ none
  buffer : ∀ p, (s.conn c).pRecvbuf = .message p →
    (s.conn c).pMsgrecv = some p.block ∨ s.Gone p.block
  fresh : ∀ b, s.messages.next ≤ b → s.messages.get b = none

/-- What `c` does to the message blocks concerns its own block and new ones. -/
structure Touches (s : State) (c : ConnId) (s' : State) : Prop where
  minds : s'.Minds c
  grows : s.messages.next ≤ s'.messages.next
  others : ∀ b, b < s.messages.next → (s.conn c).pMsgrecv ≠ some b →
    s'.messages.get b = s.messages.get b
  ptr : ∀ b, (s'.conn c).pMsgrecv = some b →
    (s.conn c).pMsgrecv = some b ∨ s.messages.next ≤ b

theorem Touches.refl (minds : s.Minds c) : Touches s c s :=
  ⟨minds, Nat.le_refl _, fun _ _ _ => rfl, fun _ => .inl⟩

theorem Touches.trans (h : Touches s c t) (h' : Touches t c s') : Touches s c s' where
  minds := h'.minds
  grows := Nat.le_trans h.grows h'.grows
  others b hlt hne := by
    rw [h'.others b (Nat.lt_of_lt_of_le hlt h.grows) fun hb => ?_, h.others b hlt hne]
    rcases h.ptr b hb with hold | hnew
    · exact hne hold
    · exact absurd hlt (Nat.not_lt.mpr hnew)
  ptr b hb := by
    rcases h'.ptr b hb with hmid | hnew
    · exact h.ptr b hmid
    · exact .inr (Nat.le_trans h.grows hnew)

/-- A block that is gone stays gone. -/
theorem Touches.gone (h : Touches s c s') (minds : s.Minds c) (gone : s.Gone b) : s'.Gone b := by
  refine ⟨Nat.lt_of_lt_of_le gone.1 h.grows, ?_⟩
  rw [h.others b gone.1 fun hb => (minds.live b hb).2 gone.2]
  exact gone.2

/-- The message blocks and the pointers into them are as before, or `p_recvbuf` points
elsewhere. -/
theorem touches_same (minds : s.Minds c) (messages : s'.messages = s.messages)
    (owner : (s'.conn c).pMsgrecv = (s.conn c).pMsgrecv)
    (buffer : ∀ p, (s'.conn c).pRecvbuf = .message p →
      ∃ q, (s.conn c).pRecvbuf = .message q ∧ q.block = p.block) : Touches s c s' where
  minds := {
    live := by
      rw [messages, owner]
      exact minds.live
    buffer := fun p hp => by
      obtain ⟨q, hq, hblock⟩ := buffer p hp
      rw [Gone, messages, owner, ← hblock]
      exact minds.buffer q hq
    fresh := by
      rw [messages]
      exact minds.fresh }
  grows := Nat.le_of_eq (by rw [messages])
  others _ _ _ := by rw [messages]
  ptr b hb := .inl (owner ▸ hb)

theorem touches_modifyConn (minds : s.Minds c) {f : Connection → Connection}
    (owner : ∀ conn, (f conn).pMsgrecv = conn.pMsgrecv)
    (buffer : ∀ conn p, (f conn).pRecvbuf = .message p →
      ∃ q, conn.pRecvbuf = .message q ∧ q.block = p.block) : Touches s c (s.modifyConn c f) :=
  touches_same minds rfl (by simp [owner]) (by simpa using buffer (s.conn c))

/-- The block of `p_msgrecv` is let go. -/
theorem touches_release (minds : s.Minds c) (messages : s'.messages = s.withoutMsgrecv c)
    (owner : (s'.conn c).pMsgrecv = none)
    (buffer : ∀ p, (s'.conn c).pRecvbuf = .message p →
      ∃ q, (s.conn c).pRecvbuf = .message q ∧ q.block = p.block) : Touches s c s' := by
  cases hptr : (s.conn c).pMsgrecv with
  | none =>
      have hsame : s'.messages = s.messages := by rw [messages, withoutMsgrecv, hptr]
      exact touches_same minds hsame (owner.trans hptr.symm) buffer
  | some b =>
      have hmessages : s'.messages = s.messages.release b := by rw [messages, withoutMsgrecv, hptr]
      have hdead : ∀ b', s.messages.get b' = none → s'.messages.get b' = none := by
        intro b' hb'
        rw [hmessages]
        by_contra hlive
        obtain ⟨msg, hmsg⟩ := Option.ne_none_iff_exists'.mp hlive
        rw [Heap.get_release_some hmsg] at hb'
        cases hb'
      refine ⟨⟨fun b' hb' => ?_, fun p hp => ?_, fun b' hle => ?_⟩, ?_, fun b' _ hne => ?_,
        fun b' hb' => ?_⟩
      · rw [owner] at hb'
        cases hb'
      · obtain ⟨q, hq, hblock⟩ := buffer p hp
        rw [← hblock]
        refine .inr ?_
        rcases minds.buffer q hq with hown | hgone
        · obtain rfl := Option.some.inj (hptr.symm.trans hown)
          exact ⟨by simpa [hmessages] using (minds.live _ hptr).1, by simp [hmessages]⟩
        · exact ⟨by simpa [hmessages] using hgone.1, hdead _ hgone.2⟩
      · rw [hmessages, Heap.release_next] at hle
        exact hdead _ (minds.fresh b' hle)
      · rw [hmessages, Heap.release_next]
      · rw [hmessages, Heap.get_release_ne]
        exact fun he => hne (by rw [hptr, he])
      · rw [owner] at hb'
        cases hb'

theorem touches_forgetMsgrecv (minds : s.Minds c) : Touches s c (s.forgetMsgrecv c) :=
  touches_release minds rfl (by simp) fun p hp => ⟨p, by simpa using hp, rfl⟩

theorem touches_putToStateMach (minds : s.Minds c) : Touches s c (s.putToStateMach c) :=
  touches_release minds rfl (by simp [Incoming.start]) fun p hp => by simp [Incoming.start] at hp

theorem touches_allocMessage (minds : s.Minds c) (header : List UInt8) (n : Nat) :
    Touches s c (s.allocMessage c header n) := by
  have hrelease : Touches s c (s.forgetMsgrecv c) := touches_forgetMsgrecv minds
  have hfresh := hrelease.minds.fresh
  have hmessages : (s.forgetMsgrecv c).messages = s.withoutMsgrecv c := rfl
  rw [hmessages] at hfresh
  refine ⟨⟨fun b hb => ?_, fun p hp => .inl ?_, fun b hle => ?_⟩, ?_, fun b hlt hne => ?_,
    fun b hb => ?_⟩
  · simp only [allocMessage_conn, Function.update_self, Option.some.injEq] at hb
    subst hb
    simp
  · simp only [allocMessage_conn, Function.update_self, RecvBuf.message.injEq] at hp
    simp [← hp]
  · simp only [allocMessage_toBlocks, Heap.alloc_next] at hle
    rw [allocMessage_toBlocks, Heap.get_alloc_ne (by omega)]
    exact hfresh b (by omega)
  · simpa using Nat.le_succ_of_le hrelease.grows
  · have hold := Nat.lt_of_lt_of_le hlt hrelease.grows
    rw [hmessages] at hold
    rw [allocMessage_toBlocks, Heap.get_alloc_ne (Nat.ne_of_lt hold)]
    exact hrelease.others b hlt hne
  · simp only [allocMessage_conn, Function.update_self, Option.some.injEq] at hb
    exact .inr (hb ▸ hrelease.grows)

/-- A store reaches no further than the block of the connection. -/
theorem touches_store (minds : s.Minds c) {bytes : List UInt8}
    (h : s.store (s.conn c).pRecvbuf bytes = some s') : Touches s c s' := by
  cases hbuf : (s.conn c).pRecvbuf with
  | null =>
      rw [hbuf] at h
      cases h
  | header p =>
      rw [hbuf] at h
      obtain ⟨memory, -, rfl⟩ := Option.map_eq_some_iff.mp h
      exact touches_same minds rfl rfl fun q hq => ⟨q, hq, rfl⟩
  | message p =>
      rw [hbuf] at h
      obtain ⟨messages, hupdate, rfl⟩ := Option.map_eq_some_iff.mp h
      obtain ⟨msg, msg', hlive, -, rfl⟩ := Heap.update_eq_some.mp hupdate
      have hown : (s.conn c).pMsgrecv = some p.block := by
        rcases minds.buffer p hbuf with hown | hgone
        · exact hown
        · rw [hgone.2] at hlive
          cases hlive
      have hpast := (minds.live _ hown).1
      refine ⟨⟨fun b hb => ?_, fun q hq => .inl ?_, fun b hle => ?_⟩, Nat.le_refl _,
        fun b _ hne => ?_, fun b => .inl⟩
      · obtain rfl := Option.some.inj (hown.symm.trans hb)
        exact ⟨hpast, by simp⟩
      · obtain rfl := RecvBuf.message.inj (hbuf.symm.trans hq)
        exact hown
      · rw [setMessages_toBlocks, Heap.get_set_ne (by rintro rfl; exact Nat.not_lt.mpr hle hpast)]
        exact minds.fresh b hle
      · rw [setMessages_toBlocks, Heap.get_set_ne]
        rintro rfl
        exact hne hown

theorem Minds.closed (minds : s.Minds c) (idle : s.Idle c) {istimeoutClose : Bool}
    (h : s.closeAcceptedConnection c istimeoutClose env = some s') : Touches s c s' := by
  rcases closeAcceptedConnection_cases idle h with ⟨rfl, -⟩ | ⟨-, rfl⟩
  · exact .refl minds
  · exact touches_same minds rfl (by simp [afterClose]) fun p hp =>
      ⟨p, by simpa [afterClose] using hp, rfl⟩

theorem recvproc_touches (minds : s.Minds c) (idle : s.Idle c) {len : Nat} {r : Option Nat}
    (h : s.recvproc c (s.conn c).pRecvbuf len env = some (s', r)) : Touches s c s' := by
  simp only [recvproc] at h
  split at h
  · cases h
  · obtain ⟨t, ht, heq⟩ := Option.map_eq_some_iff.mp h
    obtain ⟨rfl, -⟩ := Prod.mk.inj heq
    exact touches_store minds ht
  · obtain ⟨rfl, -⟩ := Prod.mk.inj (Option.some.inj h)
    exact .refl minds
  · obtain ⟨rfl, -⟩ := Prod.mk.inj (Option.some.inj h)
    exact .refl minds
  · obtain ⟨t, ht, heq⟩ := Option.map_eq_some_iff.mp h
    obtain ⟨rfl, -⟩ := Prod.mk.inj heq
    exact minds.closed idle ht
  · obtain ⟨rfl, -⟩ := Prod.mk.inj (Option.some.inj h)
    exact .refl minds
  · obtain ⟨rfl, -⟩ := Prod.mk.inj (Option.some.inj h)
    exact .refl minds
  · obtain ⟨t, ht, heq⟩ := Option.map_eq_some_iff.mp h
    obtain ⟨rfl, -⟩ := Prod.mk.inj heq
    exact minds.closed idle ht

theorem touches_advance (minds : s.Minds c) (n : Nat) : Touches s c (s.advance c n) := by
  refine touches_modifyConn minds (fun _ => rfl) fun conn p hp => ?_
  simp only at hp
  split at hp
  · cases hbuf : conn.pRecvbuf with
    | message q =>
        rw [hbuf] at hp
        exact ⟨q, rfl, by rw [← RecvBuf.message.inj hp]⟩
    | null | header q =>
        rw [hbuf] at hp
        cases hp
  · exact ⟨p, hp, rfl⟩

theorem touches_setCurstat (minds : s.Minds c) (state : CurStat) :
    Touches s c (s.modifyConn c fun conn => { conn with curstat := state }) :=
  touches_modifyConn minds (fun _ => rfl) fun _ p hp => ⟨p, hp, rfl⟩

theorem touches_freeMemory (minds : s.Minds c) {info : Option Nat}
    (h : s.freeMemory info = some s') : Touches s c s' := by
  cases info with
  | none =>
      obtain rfl := Option.some.inj h
      exact .refl minds
  | some b =>
      obtain ⟨memory, -, rfl⟩ := Option.map_eq_some_iff.mp h
      exact touches_same minds rfl rfl fun p hp => ⟨p, hp, rfl⟩

theorem pkgBodyProc_touches (minds : s.Minds c) (h : s.pkgBodyProc c = some s') :
    Touches s c s' := by
  simp only [pkgBodyProc] at h
  obtain ⟨t, ht, rfl⟩ := Option.map_eq_some_iff.mp h
  have hqueue : Touches s c (s.inMsgRecv ((s.conn c).pMsgrecv.bind s.messages.get)) :=
    touches_same minds rfl rfl fun p hp => ⟨p, hp, rfl⟩
  have hnull := hqueue.trans (touches_modifyConn hqueue.minds
    (f := fun conn => { conn with pRecvbuf := .null }) (fun _ => rfl) fun _ _ hp => by cases hp)
  have hforget := hnull.trans (touches_forgetMsgrecv hnull.minds)
  have hfree := hforget.trans (touches_freeMemory hforget.minds ht)
  exact hfree.trans (touches_putToStateMach hfree.minds)

theorem pkgHeaderProc_touches (minds : s.Minds c) (h : s.pkgHeaderProc c = some s') :
    Touches s c s' := by
  simp only [pkgHeaderProc] at h
  obtain ⟨b, -, h⟩ := Option.bind_eq_some_iff.mp h
  obtain ⟨header, -, h⟩ := Option.bind_eq_some_iff.mp h
  have halloc := touches_allocMessage minds header (pkgLen header - pkgHeaderLen)
  split at h
  · obtain ⟨t, ht, rfl⟩ := Option.map_eq_some_iff.mp h
    have hfree := touches_freeMemory minds ht
    exact hfree.trans (touches_setCurstat hfree.minds _)
  · split at h
    · exact halloc.trans (pkgBodyProc_touches halloc.minds h)
    · obtain rfl := Option.some.inj h
      exact halloc.trans (touches_setCurstat halloc.minds _)

theorem receiveHeader_touches (minds : s.Minds c) (idle : s.Idle c)
    (h : s.receiveHeader c env = some s') : Touches s c s' := by
  simp only [receiveHeader, pkgHeaderRecv] at h
  split at h
  · cases h
  next hrecv =>
    obtain rfl := Option.some.inj h
    split at hrecv
    · obtain ⟨rfl, -⟩ := Prod.mk.inj (Option.some.inj hrecv)
      exact .refl minds
    · split at hrecv
      · cases hrecv
      next hproc =>
        obtain ⟨rfl, -⟩ := Prod.mk.inj (Option.some.inj hrecv)
        exact recvproc_touches minds idle hproc
      next => cases (Prod.mk.inj (Option.some.inj hrecv)).2
  next hrecv =>
    split at hrecv
    · cases (Prod.mk.inj (Option.some.inj hrecv)).2
    · split at hrecv
      · cases hrecv
      next => cases (Prod.mk.inj (Option.some.inj hrecv)).2
      next n hproc =>
        obtain ⟨rfl, -⟩ := Prod.mk.inj (Option.some.inj hrecv)
        have hread := recvproc_touches minds idle hproc
        have hcount := hread.trans (touches_advance hread.minds n)
        split at h
        · exact hcount.trans (pkgHeaderProc_touches hcount.minds h)
        · obtain rfl := Option.some.inj h
          exact hcount.trans (touches_setCurstat hcount.minds _)

theorem receiveBody_touches (minds : s.Minds c) (idle : s.Idle c)
    (h : s.receiveBody c env = some s') : Touches s c s' := by
  simp only [receiveBody, pkgBodyRecv] at h
  split at h
  · cases h
  next hrecv =>
    obtain rfl := Option.some.inj h
    split at hrecv
    · obtain ⟨t, ht, heq⟩ := Option.map_eq_some_iff.mp hrecv
      obtain ⟨rfl, -⟩ := Prod.mk.inj heq
      have hforget := touches_forgetMsgrecv minds
      exact hforget.trans (touches_freeMemory hforget.minds ht)
    · split at hrecv
      · cases hrecv
      next hproc =>
        obtain ⟨rfl, -⟩ := Prod.mk.inj (Option.some.inj hrecv)
        have hread := recvproc_touches minds idle hproc
        exact hread.trans (touches_forgetMsgrecv hread.minds)
      next => cases (Prod.mk.inj (Option.some.inj hrecv)).2
  next hrecv =>
    split at hrecv
    · obtain ⟨t, -, heq⟩ := Option.map_eq_some_iff.mp hrecv
      cases (Prod.mk.inj heq).2
    · split at hrecv
      · cases hrecv
      next => cases (Prod.mk.inj (Option.some.inj hrecv)).2
      next n hproc =>
        obtain ⟨rfl, -⟩ := Prod.mk.inj (Option.some.inj hrecv)
        have hread := recvproc_touches minds idle hproc
        have hcount := hread.trans (touches_advance hread.minds n)
        split at h
        · exact hcount.trans (pkgBodyProc_touches hcount.minds h)
        · obtain rfl := Option.some.inj h
          exact hcount.trans (touches_setCurstat hcount.minds _)

/-- A readable event touches the block of its connection and new ones. -/
theorem readable_touches (minds : s.Minds c) (idle : s.Idle c)
    (h : s.eventReadableRequestHandler c env = some s') : Touches s c s' := by
  simp only [eventReadableRequestHandler] at h
  split at h
  · have halloc : Touches s c (s.allocHeader c) :=
      touches_same minds rfl (by simp) fun p hp => by simp at hp
    exact halloc.trans
      (receiveHeader_touches halloc.minds (idle.receiveOnly ⟨_, _, _, rfl⟩) h)
  · split at h
    · obtain rfl := Option.some.inj h
      exact .refl minds
    · exact receiveHeader_touches minds idle h
  · split at h
    · obtain rfl := Option.some.inj h
      exact .refl minds
    · exact receiveBody_touches minds idle h
  · split at h
    · obtain rfl := Option.some.inj h
      exact .refl minds
    · exact receiveBody_touches minds idle h

end State

end MyNginx
