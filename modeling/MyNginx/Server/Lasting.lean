import MyNginx.Server.Boot

/-!
# What an open connection keeps

The loop and the threads beside it leave the descriptor, the sequence, the clock reading
and the number of waiting replies of an open connection alone. A connection that was
not open before has just been accepted and starts with the values of its accept.
-/

namespace MyNginx

open Foundation

namespace State

variable {s s' t : State} {c d : ConnId} {env : Env}

/-- The clock reading that `event_accept_handler` leaves in `ping_update_time`. -/
def acceptTime (conf : Conf) (env : Env) : Time :=
  if conf.timeEnable = 1 then env.later else env.now

/-- An open connection stays as it was, or a use of its object has just begun. -/
inductive Lasts (env : Env) (s s' : State) (c : ConnId) : Prop
  | same (used : s.Used c) (opened : (s.conn c).fd ≠ -1)
      (use : s'.history.use c = s.history.use c)
      (link : (s'.conn c).fd = (s.conn c).fd ∧ (s'.conn c).sequence = (s.conn c).sequence)
      (ping : (s'.conn c).pingUpdateTime = (s.conn c).pingUpdateTime)
      (count : (s'.conn c).isendCount = (s.conn c).isendCount)
  | fresh (use : s.history.use c < s'.history.use c)
      (ping : (s'.conn c).pingUpdateTime = acceptTime s.conf env)
      (count : (s'.conn c).isendCount = 0)

/-- A step that changes neither the uses nor what is read here. -/
theorem Lasts.of_same (use : s'.history.use c = s.history.use c)
    (link : (s'.conn c).fd = (s.conn c).fd ∧ (s'.conn c).sequence = (s.conn c).sequence)
    (ping : (s'.conn c).pingUpdateTime = (s.conn c).pingUpdateTime)
    (count : (s'.conn c).isendCount = (s.conn c).isendCount) (used : s'.Used c)
    (opened : (s'.conn c).fd ≠ -1) : Lasts env s s' c :=
  .same (by rwa [Used, use] at used) (link.1 ▸ opened) use link ping count

theorem Steady.lasts (h : Steady s s') (count : (s'.conn c).isendCount = (s.conn c).isendCount)
    (used : s'.Used c) (opened : (s'.conn c).fd ≠ -1) : Lasts env s s' c := by
  have hlife := h.life c
  simp only [Connection.life, Prod.mk.injEq] at hlife
  obtain ⟨hfd, hsequence, -⟩ := link_eq (h.link c)
  exact .of_same (congrFun h.use_eq c) ⟨hfd, hsequence⟩ hlife.1 count used opened

/-- An event of writing does not change the number of waiting replies. -/
theorem Writes.isendCount (h : Writes s d env s') (c : ConnId) :
    (s'.conn c).isendCount = (s.conn c).isendCount := by
  have hsame : ∀ {out queue written}, Sends s d out queue written s' →
      out.isendCount = (s.conn d).isendCount → (s'.conn c).isendCount = (s.conn c).isendCount := by
    intro out queue written sends hout
    by_cases hc : c = d
    · rw [hc, congrArg Outgoing.isendCount sends.self, hout]
    · exact congrArg Outgoing.isendCount (sends.other c hc)
  cases h with
  | failed fails sends => exact hsame sends rfl
  | part lt puts sends => exact hsame sends rfl
  | mismatch le puts differs sends => exact hsame sends rfl
  | finished le puts equal sends => exact hsame sends rfl

theorem Admits.lasts {connfd : Fd} (h : Admits s connfd env s') (used : s'.Used c)
    (opened : (s'.conn c).fd ≠ -1) : Lasts env s s' c := by
  have hother : ∀ {t u : State} {d : ConnId}, TakenFor s connfd d t → c ≠ d →
      u.conn c = t.conn c → u.history.use c = t.history.use c → u.Used c →
      (u.conn c).fd ≠ -1 → Lasts env s u c := by
    intro t u d taken hcd hconn huse hused hopen
    have hconn' : u.conn c = s.conn c := hconn.trans (taken.takes.other c hcd)
    have huse' : u.history.use c = s.history.use c := by
      rw [huse, taken.takes.history]
      rfl
    exact .of_same huse' (by rw [hconn']; exact ⟨rfl, rfl⟩) (by rw [hconn']) (by rw [hconn']) hused
      hopen
  cases h with
  | refused => exact .of_same rfl ⟨rfl, rfl⟩ rfl rfl used opened
  | opened taken room timer =>
      rename_i t w d
      by_cases hcd : c = d
      · subst hcd
        have hhistory : t.history = s.history := taken.takes.history
        have hconf : t.conf = s.conf := taken.takes.conf
        rcases timer with ⟨henable, rfl⟩ | ⟨henable, rfl⟩
        · refine .fresh ?_ ?_ ?_ <;>
            simp [State.registered, prepared, getOneToUse, hhistory, acceptTime, henable]
        · refine .fresh ?_ ?_ ?_ <;>
            simp [addToTimerQueue, State.registered, prepared, getOneToUse, hhistory, acceptTime,
              henable]
      · refine hother taken hcd ?_ ?_ used opened
        · rcases timer with ⟨-, rfl⟩ | ⟨-, rfl⟩ <;>
            simp [addToTimerQueue, State.registered, prepared, getOneToUse, hcd]
        · rcases timer with ⟨-, rfl⟩ | ⟨-, rfl⟩ <;>
            simp [addToTimerQueue, State.registered, prepared, getOneToUse, hcd]
  | rejected taken =>
      rename_i t d
      by_cases hcd : c = d
      · subst hcd
        simp [State.rejected] at opened
      · refine hother taken hcd ?_ ?_ used opened
        · simp [State.rejected, prepared, getOneToUse, hcd]
        · simp [State.rejected, prepared, getOneToUse, hcd]

theorem Move.lasts (h : Move env s s') (inv : s.Inv) (used : s'.Used c) (opened : (s'.conn c).fd ≠ -1) :
    Lasts env s s' c := by
  cases h with
  | quiet h =>
      exact h.toSteady.lasts (congrArg Outgoing.isendCount (h.outgoing c)) used opened
  | mark timer current silent =>
      rename_i head due curTime
      refine .of_same rfl ?_ ?_ ?_ used opened <;>
        by_cases hc : c = head.lpCurconn <;> simp [hc]
  | report ok => exact .of_same rfl ⟨rfl, rfl⟩ rfl rfl used opened
  | stop => exact .of_same rfl ⟨rfl, rfl⟩ rfl rfl used opened
  | hangup gone =>
      rename_i d
      refine .of_same rfl ?_ ?_ ?_ used opened <;> by_cases hc : c = d <;> simp [State.hangup, hc]
  | close used' opened' counted =>
      rename_i t d
      have hcd : c ≠ d := by
        rintro rfl
        rcases counted with rfl | rfl <;> simp [afterClose] at opened
      refine .of_same ?_ ?_ ?_ ?_ used opened <;> rcases counted with rfl | rfl <;>
        simp [afterClose, State.hangup, hcd]
  | recycle list counted =>
      rename_i d front back count
      have hcd : c ≠ d := by
        rintro rfl
        exact opened (by simpa [State.recycle] using inv.delayed_closed (c := c) (by simp [list]))
      refine .of_same rfl ?_ ?_ ?_ used opened <;> simp [State.recycle, hcd]
  | admits nonneg fresh h => exact h.lasts used opened
  | write used' h => exact h.steady.lasts (h.isendCount c) used opened

/-- The values of an open connection are kept, or those of its accept. -/
theorem Moves.lasts (h : Moves env s s') (inv : s.Inv) (used : s'.Used c)
    (opened : (s'.conn c).fd ≠ -1) : Lasts env s s' c := by
  induction h with
  | refl => exact .of_same rfl ⟨rfl, rfl⟩ rfl rfl used opened
  | tail hs hmove ih =>
      have hevolves := Moves.evolves hs inv
      cases hmove.lasts hevolves.inv used opened with
      | same hused hopened huse hlink hping hcount =>
          cases ih hused hopened with
          | same hused' hopened' huse' hlink' hping' hcount' =>
              exact .same hused' hopened' (huse.trans huse')
                ⟨hlink.1.trans hlink'.1, hlink.2.trans hlink'.2⟩ (hping.trans hping')
                (hcount.trans hcount')
          | fresh huse' hping' hcount' =>
              exact .fresh (huse ▸ huse') (hping.trans hping') (hcount.trans hcount')
      | fresh huse hping hcount =>
          refine .fresh (Nat.lt_of_le_of_lt (hevolves.use_le c) huse) ?_ hcount
          rw [hping, hevolves.conf]

end State

end MyNginx
