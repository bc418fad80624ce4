import MyNginx.Receive.Progress
import MyNginx.Server.Boot

/-!
# The peer shuts its side down

`recv` returns 0 when the peer has shut down. `recvproc` looks at `errno` then, which
`recv` has not set: the connection is retired unless an earlier call left 0 or `EAGAIN`
there.
-/

namespace MyNginx

open Foundation

namespace State

variable {s s' t : State} {c : ConnId} {env : Env} {errno : Errno}

/-- The connection `c` was closed: its descriptor, the online count and the recycle list,
each of them once. -/
structure Retired (s s' : State) (c : ConnId) : Prop where
  fd : (s'.conn c).fd = -1
  closed : s'.openFds (s.conn c).fd = false
  closes : s'.history.closes = s.history.closes ++ [(c, s.history.use c)]
  online : s'.onlineCount = s.onlineCount - 1
  recycled : s'.recyConnectionList = s.recyConnectionList ++ [c]
  once : s'.recyConnectionList.count c = 1

/-- Closing an open connection that is not marked, when `close` succeeds. -/
theorem closeAcceptedConnection_open (opened : s.openFds (s.conn c).fd = true)
    (hfd : (s.conn c).fd ≠ -1) (unmarked : (s.conn c).istimeout = false)
    (idle : (s.conn c).inrecyList = 0 ∧ c ∉ s.recyConnectionList) (close : env.close = true) :
    s.closeAcceptedConnection c false env = some (s.afterClose c env.now) := by
  have hsome : ∃ s', s.closeAcceptedConnection c false env = some s' := by
    simp only [closeAcceptedConnection, if_neg hfd]
    rw [if_neg (by simp [unmarked]), if_pos (by rw [close, openFds_epollDel, opened]; rfl)]
    exact ⟨_, rfl⟩
  obtain ⟨s', hs'⟩ := hsome
  rcases closeAcceptedConnection_cases (fun _ => idle) hs' with ⟨-, hgone⟩ | ⟨-, rfl⟩
  · rw [unmarked] at hgone
    exact absurd hgone (by simp [hfd])
  · exact hs'

/-- When `close` fails, the connection was closed before or is left to the timer thread. -/
theorem closeAcceptedConnection_refused {istimeoutClose : Bool} (close : env.close = false)
    (h : s.closeAcceptedConnection c istimeoutClose env = some s') : s' = s := by
  simp only [closeAcceptedConnection] at h
  split at h
  · exact (Option.some.inj h).symm
  split at h
  · exact (Option.some.inj h).symm
  · simp [close] at h

/-- What a `recv` that returns 0 comes to, in front of the rest of the handler. -/
theorem recvproc_zero (inv : t.Inv) (used : t.Used c) (hfd : (t.conn c).fd ≠ -1)
    (unmarked : (t.conn c).istimeout = false) (recv : env.recv = .zero errno)
    (close : env.close = true) (buf : RecvBuf) (len : Nat) :
    t.recvproc c buf len env =
      if errno = .ok then some (t, some 0)
      else if errno = .eagain then some (t, none)
      else some (t.afterClose c env.now, none) := by
  have hopen := inv.wired.opened c (inv.wired.used c used).1 hfd
  have hclose := closeAcceptedConnection_open hopen hfd unmarked (inv.idle used hfd) close
  cases errno with
  | ok | eagain => simp [recvproc, sysRecv, hopen, recv]
  | eintr | econnreset | enosys | other => simp [recvproc, sysRecv, hopen, recv, hclose]

/-- An event whose `recv` returned 0: it is quiet when `errno` was 0 or `EAGAIN`, and
otherwise closes the connection between two quiet parts. -/
inductive ReadsZero (c : ConnId) (env : Env) (errno : Errno) (s s' : State) : Prop
  | missed (left : errno = .ok ∨ errno = .eagain) (h : Quiet s s')
  | closed (left : errno ≠ .ok ∧ errno ≠ .eagain) {t : State} (before : Quiet s t)
      (after : Quiet (t.afterClose c env.now) s')

theorem receiveHeader_zero (inv : t.Inv) (used : t.Used c) (hfd : (t.conn c).fd ≠ -1)
    (unmarked : (t.conn c).istimeout = false) (recv : env.recv = .zero errno)
    (close : env.close = true) (state : (t.conn c).curstat = .hdInit ∨ (t.conn c).curstat = .hdRecving)
    (pos : (t.conn c).recvlen ≠ 0) :
    ∃ s', t.receiveHeader c env = some s' ∧ ReadsZero c env errno t s' := by
  have hstate : ¬ ((t.conn c).curstat ≠ .hdInit ∧ (t.conn c).curstat ≠ .hdRecving) := by
    rcases state with h | h <;> simp [h]
  simp only [receiveHeader, pkgHeaderRecv, if_neg hstate,
    recvproc_zero inv used hfd unmarked recv close]
  by_cases hok : errno = .ok
  · rw [if_pos hok]
    simp only [if_neg (Ne.symm pos)]
    exact ⟨_, rfl, .missed (.inl hok) (quiet_advance.trans (quiet_modifyConn fun _ => ⟨_, rfl⟩))⟩
  rw [if_neg hok]
  by_cases hagain : errno = .eagain
  · rw [if_pos hagain]
    exact ⟨_, rfl, .missed (.inr hagain) (.refl t)⟩
  · rw [if_neg hagain]
    exact ⟨_, rfl, .closed ⟨hok, hagain⟩ (.refl t) (.refl _)⟩

theorem receiveBody_zero (inv : t.Inv) (used : t.Used c) (hfd : (t.conn c).fd ≠ -1)
    (unmarked : (t.conn c).istimeout = false) (recv : env.recv = .zero errno)
    (close : env.close = true) (state : (t.conn c).curstat = .bdInit ∨ (t.conn c).curstat = .bdRecving)
    (pos : (t.conn c).recvlen ≠ 0) :
    ∃ s', t.receiveBody c env = some s' ∧ ReadsZero c env errno t s' := by
  have hstate : ¬ ((t.conn c).curstat ≠ .bdInit ∧ (t.conn c).curstat ≠ .bdRecving) := by
    rcases state with h | h <;> simp [h]
  simp only [receiveBody, pkgBodyRecv, if_neg hstate,
    recvproc_zero inv used hfd unmarked recv close]
  by_cases hok : errno = .ok
  · rw [if_pos hok]
    simp only [if_neg (Ne.symm pos)]
    exact ⟨_, rfl, .missed (.inl hok) (quiet_advance.trans (quiet_modifyConn fun _ => ⟨_, rfl⟩))⟩
  rw [if_neg hok]
  by_cases hagain : errno = .eagain
  · rw [if_pos hagain]
    exact ⟨_, rfl, .missed (.inr hagain) quiet_forgetMsgrecv⟩
  · rw [if_neg hagain]
    exact ⟨_, rfl, .closed ⟨hok, hagain⟩ (.refl t) quiet_forgetMsgrecv⟩

theorem readable_zero (inv : s.Inv) (used : s.Used c) (hfd : (s.conn c).fd ≠ -1)
    (unmarked : (s.conn c).istimeout = false) (recv : env.recv = .zero errno)
    (close : env.close = true) (pos : s.requested c ≠ 0) :
    ∃ s', s.eventReadableRequestHandler c env = some s' ∧ ReadsZero c env errno s s' := by
  simp only [eventReadableRequestHandler]
  cases hstate : (s.conn c).curstat with
  | hdInit =>
      have hquiet : Quiet s (s.allocHeader c) := quiet_allocHeader
      have hlink := link_eq (hquiet.link c)
      have hlife : ((s.allocHeader c).conn c).istimeout = false := by simpa using unmarked
      obtain ⟨s', hs', hreads⟩ := receiveHeader_zero (hquiet.toNeutral.inv inv)
        (hquiet.used_iff.mpr used) (by rw [hlink.1]; exact hfd) hlife recv close
        (.inl (by simpa using hstate)) (by simp [pkgHeaderLen])
      refine ⟨s', hs', ?_⟩
      cases hreads with
      | missed left h => exact .missed left (hquiet.trans h)
      | closed left before after => exact .closed left (hquiet.trans before) after
  | hdRecving =>
      have hpos : (s.conn c).recvlen ≠ 0 := by simpa [requested, hstate] using pos
      simp only [if_neg hpos]
      exact receiveHeader_zero inv used hfd unmarked recv close (.inr hstate) hpos
  | bdInit =>
      have hpos : (s.conn c).recvlen ≠ 0 := by simpa [requested, hstate] using pos
      simp only [if_neg hpos]
      exact receiveBody_zero inv used hfd unmarked recv close (.inl hstate) hpos
  | bdRecving =>
      have hpos : (s.conn c).recvlen ≠ 0 := by simpa [requested, hstate] using pos
      simp only [if_neg hpos]
      exact receiveBody_zero inv used hfd unmarked recv close (.inr hstate) hpos

/-- With a `close` that fails, an event that comes to its end is quiet. -/
theorem readable_refused (used : s.Used c) (close : env.close = false)
    (h : s.eventReadableRequestHandler c env = some s') : Quiet s s' := by
  cases readable_reads used h with
  | quiet hquiet => exact hquiet
  | closed before hclose after =>
      have hsame := closeAcceptedConnection_refused close hclose
      exact before.trans (hsame ▸ after)

/-- A close between two quiet parts retires the connection. -/
theorem Retired.of_close {now : Time} (idle : c ∉ s.recyConnectionList) (before : Quiet s t)
    (after : Quiet (t.afterClose c now) s') : Retired s s' c := by
  have hview : s'.view = s.view.retire c := by
    rw [after.view, view_afterClose, before.view]
  have hrecycled : s'.recyConnectionList = s.recyConnectionList ++ [c] :=
    congrArg ObjectPool.delayed hview
  refine ⟨?_, ?_, congrArg ObjectPool.closed hview, congrArg ObjectPool.online hview,
    hrecycled, ?_⟩
  · rw [(link_eq (after.link c)).1]
    simp [afterClose]
  · rw [after.openFds, ← (link_eq (before.link c)).1]
    simp [afterClose]
  · rw [hrecycled, List.count_append, List.count_eq_zero_of_not_mem idle]
    simp

theorem Quiet.not_retired (h : Quiet s s') (hfd : (s.conn c).fd ≠ -1) : ¬ Retired s s' c := by
  intro hretired
  have hsame := (link_eq (h.link c)).1
  rw [hretired.fd] at hsame
  exact hfd hsame.symm

end State

namespace Server

open State

variable {boot : Boot} {s : State} {c : ConnId} {env : Env} {errno : Errno}

/-- A readable event in which the peer has shut down retires an open connection that is
not marked exactly when `errno` holds neither 0 nor `EAGAIN` from an earlier call; a
`close` that fails ends the process. -/
theorem retired_iff (h : Reachable boot s) (used : s.Used c) (hfd : (s.conn c).fd ≠ -1)
    (unmarked : (s.conn c).istimeout = false) (recv : env.recv = .zero errno)
    (pos : s.requested c ≠ 0) :
    (∃ s', s.eventReadableRequestHandler c env = some s' ∧ Retired s s' c) ↔
      errno ≠ .ok ∧ errno ≠ .eagain ∧ env.close = true := by
  have hinv := reachable_inv h
  by_cases hclose : env.close = true
  · obtain ⟨s', hs', hreads⟩ := readable_zero hinv used hfd unmarked recv hclose pos
    constructor
    · rintro ⟨t, ht, hretired⟩
      obtain rfl := Option.some.inj (hs'.symm.trans ht)
      cases hreads with
      | missed left h => exact absurd hretired (h.not_retired hfd)
      | closed left before after => exact ⟨left.1, left.2, hclose⟩
    · rintro ⟨hok, hagain, -⟩
      refine ⟨s', hs', ?_⟩
      cases hreads with
      | missed left h => exact absurd left (by simp [hok, hagain])
      | closed left before after => exact .of_close (hinv.idle used hfd).2 before after
  · constructor
    · rintro ⟨s', hs', hretired⟩
      exact absurd hretired (readable_refused used (by simpa using hclose) hs' |>.not_retired hfd)
    · exact fun hall => absurd hall.2.2 hclose

/-- A client that was accepted on the descriptor 5 and shuts down before it sends
anything, when `errno` holds `ENOSYS`. -/
theorem retired_iff_enosys : ∃ s s' : State, (s.conn 1).fd = 5 ∧
    s.eventReadableRequestHandler 1 { recv := .zero .enosys } = some s' ∧ Retired s s' 1 := by
  have hlaunch : (launch .small [true] (acceptOn 5 100)).map
      (fun s => ((s.history.use 1, (s.conn 1).fd), (s.conn 1).istimeout, s.requested 1)) =
        some ((1, 5), false, 8) := by decide
  obtain ⟨s, hs, heq⟩ := Option.map_eq_some_iff.mp hlaunch
  obtain ⟨⟨huse, hfd⟩, hunmarked, hpos⟩ := by simpa only [Prod.mk.injEq] using heq
  obtain ⟨s', hs', hretired⟩ := (retired_iff (reachable_of_launch hs) (c := 1)
    (by rw [Used, huse]; decide) (by rw [hfd]; decide) hunmarked
    (show Env.recv { recv := .zero .enosys } = .zero .enosys from rfl) (by rw [hpos]; decide)).mpr ⟨nofun, nofun, rfl⟩
  exact ⟨s, s', hfd, hs', hretired⟩

/-- The same with an `EAGAIN` that a call for another connection left in `errno`. -/
theorem shutdown_missed :
    ¬ ∀ (boot : Boot) (s : State) (c : ConnId) (env : Env) (errno : Errno), Reachable boot s →
      s.Used c → (s.conn c).fd ≠ -1 → (s.conn c).istimeout = false → env.recv = .zero errno →
        s.requested c ≠ 0 → env.close = true →
          ∃ s', s.eventReadableRequestHandler c env = some s' ∧ Retired s s' c := by
  intro hclaim
  have hlaunch : (launch .small [true] (acceptOn 5 100)).map
      (fun s => (((s.history.use 1, (s.conn 1).fd), (s.conn 1).istimeout, s.requested 1),
        (s.eventReadableRequestHandler 1 { recv := .zero .eagain }).map
          fun s' => (s'.conn 1).fd)) = some (((1, 5), false, 8), some 5) := by decide
  obtain ⟨s, hs, heq⟩ := Option.map_eq_some_iff.mp hlaunch
  obtain ⟨⟨⟨huse, hfd⟩, hunmarked, hpos⟩, hopen⟩ := by simpa only [Prod.mk.injEq] using heq
  obtain ⟨s', hs', hretired⟩ := hclaim .small s 1 { recv := .zero .eagain } .eagain
    (reachable_of_launch hs) (by rw [Used, huse]; decide) (by rw [hfd]; decide) hunmarked rfl
    (by rw [hpos]; decide) rfl
  rw [hs', Option.map_some, Option.some.injEq, hretired.fd] at hopen
  exact absurd hopen (by decide)

end Server

end MyNginx
