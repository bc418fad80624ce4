import MyNginx.Server.Registration

/-!
# The mask of a connection and the mask of the kernel

`epoll_oper_event` computes the next mask from the recorded one, and records it before it
calls `epoll_ctl`. The two copies agree as long as every refused call asked for the mask
that was recorded already; the first other refusal separates them.
-/

namespace MyNginx

open Foundation

namespace State

variable {s s' s₀ : State} {c : ConnId}

/-- A call of `epoll_oper_event` for a registered connection, and whether `epoll_ctl` is
granted. -/
structure OperCall where
  flag : EpollOp
  eventType : Mask
  bcaction : Int
  granted : Bool
  stays : flag ≠ .del

/-- The call, with its result. -/
def operate (s : State) (c : ConnId) (call : OperCall) : State × Int :=
  s.epollOperEvent (s.conn c).fd call.flag call.eventType call.bcaction c call.granted

/-- One call for the connection `c`. -/
def operStep (c : ConnId) (s : State) (call : OperCall) : Option State := some (s.operate c call).1

/-- A call that returns -1 leaves the recorded mask as it was. -/
def Undone (c : ConnId) (s : State) (call : OperCall) : Prop :=
  (s.operate c call).2 = -1 → ((s.operate c call).1.conn c).events = (s.conn c).events

/-- The call is granted, or it asks for the mask that is recorded. -/
def Sound (c : ConnId) (s : State) (call : OperCall) : Prop :=
  call.flag = .mod ∧ call.granted = true ∨
    operMask (s.conn c).events call.flag call.eventType call.bcaction = (s.conn c).events

instance : DecidableRel (Sound c) := fun _ _ => inferInstanceAs (Decidable (_ ∨ _))

/-- The connection is registered, with whatever mask. -/
structure Registered (s : State) (c : ConnId) : Prop where
  opened : s.openFds (s.conn c).fd = true
  entry : ∃ mask, s.interest (s.conn c).fd = some (mask, c)

/-- What a call does to a registered connection. -/
inductive Operates (s : State) (c : ConnId) (call : OperCall) (s' : State) (result : Int) : Prop
  | granted (sound : call.flag = .mod ∧ call.granted = true) (zero : result = 0)
      (interest : s'.interest (s.conn c).fd =
        some (operMask (s.conn c).events call.flag call.eventType call.bcaction, c))
  | refused (unsound : ¬ (call.flag = .mod ∧ call.granted = true)) (failed : result = -1)
      (interest : s'.interest = s.interest)

theorem operate_operates (registered : s.Registered c) (call : OperCall) :
    Operates s c call (s.operate c call).1 (s.operate c call).2 := by
  obtain ⟨hopen, mask, hmask⟩ := registered
  obtain ⟨flag, eventType, bcaction, granted, stays⟩ := call
  cases flag with
  | del => exact absurd rfl stays
  | add =>
      exact .refused (by simp) (by simp [operate, epollOperEvent, epollCtl, hmask])
        (by simp [operate, epollOperEvent, epollCtl, hmask])
  | mod =>
      cases granted with
      | true =>
          exact .granted ⟨rfl, rfl⟩ (by simp [operate, epollOperEvent, epollCtl, hmask, hopen])
            (by simp [operate, epollOperEvent, epollCtl, hmask, hopen])
      | false =>
          exact .refused (by simp) (by simp [operate, epollOperEvent, epollCtl])
            (by simp [operate, epollOperEvent, epollCtl])

/-- The mask is recorded in any case. -/
theorem operate_records (s : State) (c : ConnId) (call : OperCall) :
    ((s.operate c call).1.conn c).events =
        operMask (s.conn c).events call.flag call.eventType call.bcaction ∧
      ((s.operate c call).1.conn c).fd = (s.conn c).fd ∧
      (s.operate c call).1.openFds = s.openFds := by
  have hconn : ∀ {t u : State} {op : EpollOp} {fd : Fd} {m : Mask} {ok : Bool},
      t.epollCtl op fd m c ok = some u → u.conn = t.conn ∧ u.openFds = t.openFds := by
    intro t u op fd m ok h
    simp only [epollCtl] at h
    split at h
    · obtain rfl := Option.some.inj h
      exact ⟨rfl, rfl⟩
    · cases h
  simp only [operate, epollOperEvent, if_neg call.stays]
  split
  next h =>
    obtain ⟨hconn, hfds⟩ := hconn h
    simp [hconn, hfds]
  next => simp

/-- The connection stays registered. -/
theorem Registered.operate (registered : s.Registered c) (call : OperCall) :
    (s.operate c call).1.Registered c := by
  obtain ⟨-, hfd, hfds⟩ := operate_records s c call
  refine ⟨by rw [hfds, hfd]; exact registered.opened, ?_⟩
  rw [hfd]
  cases operate_operates registered call with
  | granted sound zero interest => exact ⟨_, interest⟩
  | refused unsound failed interest =>
      rw [interest]
      exact registered.entry

/-- From equal masks a call leads to equal masks exactly when it is sound. -/
theorem enrolled_operate_iff (registered : s.Registered c) (enrolled : s.Enrolled c)
    (call : OperCall) : (s.operate c call).1.Enrolled c ↔ Sound c s call := by
  obtain ⟨hevents, hfd, -⟩ := operate_records s c call
  rw [Enrolled, hfd, hevents]
  cases operate_operates registered call with
  | granted sound zero interest => exact iff_of_true interest (.inl sound)
  | refused unsound failed interest =>
      rw [interest, enrolled, Sound, or_iff_right unsound]
      simp [eq_comm]

theorem undone_iff (registered : s.Registered c) (call : OperCall) :
    Undone c s call ↔ Sound c s call := by
  obtain ⟨hevents, -, -⟩ := operate_records s c call
  rw [Undone, hevents]
  cases operate_operates registered call with
  | granted sound zero interest =>
      rw [zero]
      exact iff_of_true nofun (.inl sound)
  | refused unsound failed interest =>
      rw [failed, Sound, or_iff_right unsound]
      simp

/-- Behind an `ADD` that returns 0 the connection is registered for the recorded mask. -/
theorem added_enrolled {eventType : Mask} {bcaction : Int} {ok : Bool}
    (added : s.epollOperEvent (s.conn c).fd .add eventType bcaction c ok = (s₀, 0)) :
    s₀.Registered c ∧ s₀.Enrolled c := by
  simp only [epollOperEvent, operMask] at added
  split at added
  next t h =>
    obtain ⟨rfl, -⟩ := Prod.mk.inj added
    simp only [reduceCtorEq, if_false, epollCtl, modifyConn_toKernel] at h
    split at h
    next hcan =>
      simp only [Bool.and_eq_true] at hcan
      obtain rfl := Option.some.inj h
      refine ⟨⟨?_, eventType, ?_⟩, ?_⟩
      · simpa using hcan.1.2
      · simp
      · simp [Enrolled]
    next => cases h
  next => cases (Prod.mk.inj added).2

/-- After every call behind an `ADD`, up to the `DEL`, the recorded mask is the mask of the
kernel, and no refused call leaves a trace, exactly when every call is sound. -/
theorem mask_recorded_iff {eventType : Mask} {bcaction : Int} {ok : Bool} {calls : List OperCall}
    (added : s.epollOperEvent (s.conn c).fd .add eventType bcaction c ok = (s₀, 0)) :
    (Throughout (operStep c) (Enrolled · c) s₀ calls ∧ Along (operStep c) (Undone c) s₀ calls) ↔
      Along (operStep c) (Sound c) s₀ calls := by
  obtain ⟨hregistered, henrolled⟩ := added_enrolled added
  have hstays : ∀ s call s', s.Registered c → operStep c s call = some s' →
      s'.Registered c := by
    intro s call s' registered h
    obtain rfl := Option.some.inj h
    exact registered.operate call
  have hmasks : Throughout (operStep c) (Enrolled · c) s₀ calls ↔
      Along (operStep c) (Sound c) s₀ calls := by
    refine throughout_iff_along (fun s call s' hi _ _ hs => hstays s call s' hi hs)
      (fun s call s' hi hp hs => ?_) hregistered henrolled
    obtain rfl := Option.some.inj hs
    exact enrolled_operate_iff hi hp call
  have hundone : Along (operStep c) (Undone c) s₀ calls ↔
      Along (operStep c) (Sound c) s₀ calls :=
    along_congr hstays (fun s call s' hi _ => undone_iff hi call) hregistered
  rw [hmasks, hundone, and_self]

instance : Decidable (s.Enrolled c) := inferInstanceAs (Decidable (_ = _))

/-- The connection 1 with the descriptor 5 of a client that has just been accepted. -/
def accepted : State :=
  ((Boot.small.state.openFd 5).getOneToUse 1 0).modifyConn 1 fun conn => { conn with fd := 5 }

/-- The same behind the `ADD`. -/
def watchedClient : State :=
  (accepted.epollOperEvent (accepted.conn 1).fd .add (epollin ||| epollrdhup) 0 1 true).1

theorem watchedClient_added :
    accepted.epollOperEvent (accepted.conn 1).fd .add (epollin ||| epollrdhup) 0 1 true =
      (watchedClient, 0) := Prod.ext rfl (by decide)

/-- `EPOLLOUT` is added and taken away again. -/
theorem mask_recorded_twice :
    Throughout (operStep 1) (Enrolled · 1) watchedClient
        [⟨.mod, epollout, 0, true, by decide⟩, ⟨.mod, epollout, 1, true, by decide⟩] ∧
      Along (operStep 1) (Undone 1) watchedClient
        [⟨.mod, epollout, 0, true, by decide⟩, ⟨.mod, epollout, 1, true, by decide⟩] :=
  (mask_recorded_iff watchedClient_added).mpr (by decide)

/-- The kernel refuses to add `EPOLLOUT`, and `events` contains it all the same. -/
theorem mask_recorded_refused :
    ¬ ∀ (s s₀ : State) (c : ConnId) (eventType : Mask) (bcaction : Int) (ok : Bool)
        (calls : List OperCall),
      s.epollOperEvent (s.conn c).fd .add eventType bcaction c ok = (s₀, 0) →
      Throughout (operStep c) (Enrolled · c) s₀ calls ∧ Along (operStep c) (Undone c) s₀ calls := by
  intro hclaim
  obtain ⟨hmasks, -⟩ := hclaim accepted watchedClient 1 (epollin ||| epollrdhup) 0 true
    [⟨.mod, epollout, 0, false, by decide⟩] watchedClient_added
  exact absurd (hmasks.2 _ rfl).first (by decide)

end State

end MyNginx
