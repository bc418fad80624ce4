import MyNginx.Server.Accounting

/-!
# The streams of all connections

Every open connection is somewhere in the byte stream of its client. A step of the loop
reads from at most one connection, which moves on in its stream as the packet format says;
all others stay where they are, and a connection that has just been accepted is at the
beginning of a new stream. A body read that finds nothing to read ends the stream: the
message block is gone then, and no further byte can be stored.
-/

namespace MyNginx

open Foundation

/-- The bytes that come with an answer. -/
def RecvAnswer.bytes : RecvAnswer → List UInt8
  | .data bytes => bytes
  | .zero _ | .failed _ => []

theorem RecvAnswer.bytes_of_size {answer : RecvAnswer} (h : answer.size = 0) :
    answer.bytes = [] := by
  cases answer with
  | data bytes => exact List.eq_nil_of_length_eq_zero h
  | zero errno | failed errno => rfl

namespace State

variable {s s' t v : State} {c d : ConnId} {b n seq use : Nat} {env : Env} {hands : Bool}
variable {got : List UInt8} {asked : State → ConnId → Env → Prop}

/-- Where a connection is in its stream, with `got` of a packet: it goes on with it, or the
block of the message is gone. -/
inductive Standing (s : State) (c : ConnId) (seq use : Nat) (got : List UInt8) : Prop
  | receiving (progress : Progress s c seq use got)
  | stranded (state : s.InBodyState c) (lost : (s.conn c).pMsgrecv = none)
      (unfinished : packetFormat.frames got = [] ∧ packetFormat.rest got = got)

theorem Standing.unfinished (h : Standing s c seq use got) :
    packetFormat.frames got = [] ∧ packetFormat.rest got = got := by
  cases h with
  | receiving progress => exact progress.unfinished
  | stranded state lost unfinished => exact unfinished

theorem Standing.got_nil (h : Standing s c seq use got) (init : (s.conn c).curstat = .hdInit) :
    got = [] := by
  cases h with
  | receiving progress =>
      cases progress with
      | start => rfl
      | header state => simp [init] at state
      | body state => simp [init] at state
  | stranded state => exact absurd init state.mid

theorem Standing.start (init : (s.conn c).curstat = .hdInit) : Standing s c seq use [] :=
  .receiving (.start init)

/-! ### The connection that is read from -/

/-- The next `recv` finds the connection where it is. -/
theorem Standing.atRecv (h : Standing s c seq use got) :
    Standing (s.atRecv c) c seq use got := by
  by_cases hinit : (s.conn c).curstat = .hdInit
  · obtain rfl := h.got_nil hinit
    exact .start (atRecv_curstat.trans hinit)
  · rwa [State.atRecv, if_neg hinit]

/-- Nothing can be stored where the message block is gone. -/
theorem Regular.unstorable (regular : s.Regular) (hopen : s.Open c) (state : s.InBodyState c)
    (lost : (s.conn c).pMsgrecv = none) (bytes : List UInt8) :
    s.store (s.conn c).pRecvbuf bytes = none := by
  obtain ⟨p, hwriting⟩ := regular.writing c hopen state
  rcases regular.bodies.buffer c hopen.1 p hwriting.buf with hown | hgone
  · rw [lost] at hown
    cases hown
  · simp [hwriting.buf, store, Heap.update, hgone.2]

/-- Bytes that arrive for a connection that goes on are framed. -/
theorem readable_bytes {bytes : List UInt8} (inv : s.Inv) (regular : s.Regular)
    (hopen : s.Open c)
    (standing : Standing s c (s.conn c).sequence (s.history.use c) got)
    (recv : env.recv = .data bytes) (h : s.eventReadableRequestHandler c env = some s') :
    s'.msgqueue = s.msgqueue ++ (packetFormat.frames (got ++ bytes)).map
        (some ∘ packetMessage c (s.conn c).sequence (s.history.use c)) ∧
      Standing s' c (s.conn c).sequence (s.history.use c) (packetFormat.rest (got ++ bytes)) := by
  have hfd := inv.wired.opened c (inv.wired.used c hopen.1).1 hopen.2
  cases standing with
  | receiving progress =>
      have hreceiving : Receiving s c (s.conn c).sequence (s.history.use c) got :=
        ⟨hfd, rfl, rfl, progress⟩
      by_cases hfits : 1 ≤ bytes.length ∧ bytes.length ≤ s.requested c
      · obtain ⟨t, ht, hnext, hqueue⟩ := readable_data hreceiving recv hfits.1 hfits.2
        obtain rfl := Option.some.inj (h.symm.trans ht)
        exact ⟨hqueue, .receiving hnext.progress⟩
      · rw [readable_none hreceiving recv hfits] at h
        cases h
  | stranded state lost unfinished =>
      have hnone : s.recvproc c (s.conn c).pRecvbuf (s.conn c).recvlen env = none := by
        simp only [recvproc, sysRecv, hfd, if_true, recv]
        split
        · rfl
        next hdata =>
          split at hdata
          · obtain rfl := RecvAnswer.data.inj (Option.some.inj hdata)
            rw [regular.unstorable hopen state lost, Option.map_none]
          · cases hdata
        all_goals
          next hother =>
            split at hother
            · cases Option.some.inj hother
            · cases hother
      have hbody : s.receiveBody c env = none := by
        have hstate : ¬ ((s.conn c).curstat ≠ .bdInit ∧ (s.conn c).curstat ≠ .bdRecving) :=
          or_iff_not_and_not.mp state
        simp only [receiveBody, pkgBodyRecv, if_neg hstate, hnone]
      have hat : s.atRecv c = s := if_neg state.mid
      rw [readable_atRecv env fun _ => regular.wanted hopen state.mid, if_pos state, hat,
        hbody] at h
      cases h

/-- A body read that finds nothing lets the message block go. -/
theorem Standing.forget (h : Standing s c seq use got) (state : s.InBodyState c) :
    Standing (s.forgetMsgrecv c) c seq use got := by
  refine .stranded ?_ (by simp) h.unfinished
  simpa [InBodyState] using state

/-- An interrupted read, or one of nothing. -/
theorem Standing.interrupted (h : Standing s c seq use got) {state : CurStat}
    (next : s.InBodyState c ∧ state = .bdRecving ∨ ¬ s.InBodyState c ∧ state = .hdRecving) :
    Standing (((s.atRecv c).advance c 0).modifyConn c fun conn => { conn with curstat := state })
      c seq use got := by
  by_cases hinit : (s.conn c).curstat = .hdInit
  · obtain rfl := h.got_nil hinit
    have hat : s.atRecv c = s.allocHeader c := if_pos hinit
    obtain rfl : state = .hdRecving := by
      rcases next with ⟨hbody, -⟩ | ⟨-, hstate⟩
      · exact absurd hinit hbody.mid
      · exact hstate
    rw [hat]
    exact .receiving (.header (by simp) (allocHeader_inside.advance_zero.setCurstat _))
  · have hat : s.atRecv c = s := if_neg hinit
    rw [hat]
    cases h with
    | receiving progress =>
        cases progress with
        | start init => exact absurd init hinit
        | header hstate inside =>
            obtain rfl : state = .hdRecving := by
              rcases next with ⟨hbody | hbody, -⟩ | ⟨-, hnext⟩
              · simp [hstate] at hbody
              · simp [hstate] at hbody
              · exact hnext
            exact .receiving (.header (by simp) (inside.advance_zero.setCurstat _))
        | body hstate stamped inside =>
            obtain rfl : state = .bdRecving := by
              rcases next with ⟨-, hnext⟩ | ⟨hnot, -⟩
              · exact hnext
              · exact absurd hstate hnot
            exact .receiving (.body (.inr (by simp)) stamped (inside.advance_zero.setCurstat _))
    | stranded hbody lost unfinished =>
        obtain rfl : state = .bdRecving := by
          rcases next with ⟨-, hnext⟩ | ⟨hnot, -⟩
          · exact hnext
          · exact absurd hbody hnot
        exact .stranded (.inr (by simp)) (by simpa [advance] using lost) unfinished

/-- A close leaves the queue alone. -/
theorem closeAcceptedConnection_queue {istimeoutClose : Bool} (idle : s.Idle c)
    (h : s.closeAcceptedConnection c istimeoutClose env = some s') :
    s'.msgqueue = s.msgqueue ∧ (s' = s ∨ ¬ s'.Open c) := by
  rcases closeAcceptedConnection_cases idle h with ⟨rfl, -⟩ | ⟨-, rfl⟩
  · exact ⟨rfl, .inl rfl⟩
  · exact ⟨rfl, .inr fun hopen => hopen.2 (by simp [afterClose])⟩

/-- A read that brings nothing leaves the connection where it is, if that stays open. -/
theorem readable_nothing (inv : s.Inv) (regular : s.Regular) (hopen : s.Open c)
    (standing : Standing s c seq use got) (nothing : env.recv.size = 0)
    (h : s.eventReadableRequestHandler c env = some s') :
    s'.msgqueue = s.msgqueue ∧ (s'.Open c → Standing s' c seq use got) := by
  obtain ⟨v, hands, -, hreception, hlast⟩ := readable_reception h
  have hidle := (inv.idle_of_used hopen.1).receiveOnly (receiveOnly_atRecv s c)
  have hat : (s.atRecv c).msgqueue = s.msgqueue := by
    rw [State.atRecv]
    split <;> rfl
  have hasked := regular.asked hopen
  cases hreception with
  | idle state unwanted => exact absurd unwanted (regular.wanted hopen state)
  | @stopped t recv v last =>
      obtain rfl := Option.some.inj hlast
      have hreceived : t.msgqueue = s.msgqueue ∧ (t = s.atRecv c ∨ ¬ t.Open c) := by
        generalize hr : (none : Option Nat) = r at recv
        cases recv with
        | bytes => cases hr
        | nothing => cases hr
        | again opened empty stays => exact ⟨hat, .inl rfl⟩
        | closing gone close =>
            obtain ⟨hqueue, hsame⟩ := closeAcceptedConnection_queue hidle close
            exact ⟨hqueue.trans hat, hsame⟩
      obtain ⟨hqueue, hsame⟩ := hreceived
      rcases last with rfl | ⟨state, rfl⟩
      · refine ⟨hqueue, fun hstill => ?_⟩
        rcases hsame with rfl | hclosed
        · exact standing.atRecv
        · exact absurd hstill hclosed
      · refine ⟨hqueue, fun hstill => ?_⟩
        rcases hsame with rfl | hclosed
        · refine standing.atRecv.forget ?_
          rw [InBodyState, atRecv_curstat]
          exact state
        · exact absurd (by simpa [Open, Used] using hstill) hclosed
  | @part t n state recv short next =>
      obtain rfl := Option.some.inj hlast
      obtain ⟨-, hsize, -, -⟩ := recv.conn
      obtain rfl : n = 0 := hsize.trans nothing
      generalize hr : some 0 = r at recv
      cases recv with
      | bytes opened recv pos le stored =>
          rw [recv] at nothing
          exact absurd nothing (by simp only [RecvAnswer.size]; omega)
      | nothing opened empty stays => exact ⟨hat, fun _ => standing.interrupted next⟩
      | again => cases hr
      | closing => cases hr
  | header state recv full proc =>
      obtain ⟨-, hsize, -, -⟩ := recv.conn
      exact absurd (full.symm.trans (hsize.trans nothing)) hasked
  | body state recv full =>
      obtain ⟨-, hsize, -, -⟩ := recv.conn
      exact absurd (full.symm.trans (hsize.trans nothing)) hasked

/-- A readable event of an open connection, whatever `recv` answers. -/
theorem readable_standing (inv : s.Inv) (regular : s.Regular) (hopen : s.Open c)
    (standing : Standing s c (s.conn c).sequence (s.history.use c) got)
    (h : s.eventReadableRequestHandler c env = some s') :
    s'.msgqueue = s.msgqueue ++ (packetFormat.frames (got ++ env.recv.bytes)).map
        (some ∘ packetMessage c (s.conn c).sequence (s.history.use c)) ∧
      (s'.Open c → Standing s' c (s.conn c).sequence (s.history.use c)
        (packetFormat.rest (got ++ env.recv.bytes))) := by
  by_cases hdata : ∃ bytes, env.recv = .data bytes
  · obtain ⟨bytes, hrecv⟩ := hdata
    have hread := readable_bytes inv regular hopen standing hrecv h
    rw [hrecv]
    exact ⟨hread.1, fun _ => hread.2⟩
  · have hsize : env.recv.size = 0 := by
      cases hrecv : env.recv with
      | data bytes => exact absurd ⟨bytes, hrecv⟩ hdata
      | zero errno | failed errno => rfl
    obtain ⟨hqueue, hnext⟩ := readable_nothing inv regular hopen standing hsize h
    rw [RecvAnswer.bytes_of_size hsize, List.append_nil, standing.unfinished.1,
      standing.unfinished.2]
    exact ⟨by simpa using hqueue, hnext⟩

/-- A readable event of a connection that is closed already. -/
theorem readable_closed (inv : s.Inv) (used : s.Used c) (closed : ¬ s.Open c)
    (h : s.eventReadableRequestHandler c env = some s') : s'.msgqueue = s.msgqueue := by
  obtain ⟨v, hands, -, hreception, hlast⟩ := readable_reception h
  obtain ⟨-, hfd, hfds⟩ := atRecv_account (c := c) s
  have hidle := (inv.idle_of_used used).receiveOnly (receiveOnly_atRecv s c)
  have hgone : ¬ (s.atRecv c).openFds ((s.atRecv c).conn c).fd = true := by
    rw [hfds, hfd]
    intro hopen
    refine closed ⟨used, fun hminus => ?_⟩
    rw [inv.closed hminus] at hopen
    cases hopen
  have hat : (s.atRecv c).msgqueue = s.msgqueue := by
    rw [State.atRecv]
    split <;> rfl
  cases hreception with
  | idle state unwanted =>
      obtain rfl := Option.some.inj hlast
      rfl
  | @stopped t recv v last =>
      obtain rfl := Option.some.inj hlast
      have hqueue : t.msgqueue = s.msgqueue := by
        generalize hr : (none : Option Nat) = r at recv
        cases recv with
        | bytes => cases hr
        | nothing => cases hr
        | again opened => exact absurd opened hgone
        | closing gone close => exact (closeAcceptedConnection_queue hidle close).1.trans hat
      rcases last with rfl | ⟨-, rfl⟩
      · exact hqueue
      · exact hqueue
  | part recv => exact absurd recv.conn.2.2.2 hgone
  | header state recv => exact absurd recv.conn.2.2.2 hgone
  | body state recv => exact absurd recv.conn.2.2.2 hgone

/-! ### The other connections -/

/-- What the place of a connection in its stream depends on. -/
structure Undisturbed (s s' : State) (d : ConnId) : Prop where
  incoming : (s'.conn d).toIncoming = (s.conn d).toIncoming
  header : (s.conn d).curstat ≠ .hdInit → ∀ b, (s.conn d).pHeaderinfo = some b →
    s'.memory.get b = s.memory.get b
  message : ∀ b, (s.conn d).pMsgrecv = some b → s'.messages.get b = s.messages.get b

theorem Standing.undisturbed (h : Standing s d seq use got) (same : Undisturbed s s' d) :
    Standing s' d seq use got := by
  have hstate : (s'.conn d).curstat = (s.conn d).curstat := congrArg Incoming.curstat same.incoming
  have hinfo : (s'.conn d).pHeaderinfo = (s.conn d).pHeaderinfo :=
    congrArg Incoming.pHeaderinfo same.incoming
  have howner : (s'.conn d).pMsgrecv = (s.conn d).pMsgrecv :=
    congrArg Incoming.pMsgrecv same.incoming
  have hbuf : (s'.conn d).pRecvbuf = (s.conn d).pRecvbuf :=
    congrArg Incoming.pRecvbuf same.incoming
  have hlen : (s'.conn d).recvlen = (s.conn d).recvlen := congrArg Incoming.recvlen same.incoming
  cases h with
  | receiving progress =>
      cases progress with
      | start init => exact .start (hstate.trans init)
      | header state inside =>
          have hblock := same.header (by simp [state]) _ inside.info
          exact .receiving (.header (hstate.trans state)
            ⟨hinfo.trans inside.info, hblock.trans inside.live, inside.length, inside.holds,
              inside.short, hbuf.trans inside.buf, hlen.trans inside.wanted⟩)
      | body state stamped inside =>
          obtain ⟨b, header, hb, hlive⟩ := inside.info
          have hmid : (s.conn d).curstat ≠ .hdInit := InBodyState.mid state
          have hblock := same.header hmid b hb
          have hmessage := same.message _ inside.owner
          exact .receiving (.body (by rwa [hstate]) stamped
            ⟨⟨b, header, hinfo.trans hb, hblock.trans hlive⟩, howner.trans inside.owner,
              hmessage.trans inside.live, inside.header_le, inside.announced, inside.short,
              inside.length, inside.holds, inside.terminated, hbuf.trans inside.buf,
              hlen.trans inside.wanted⟩)
  | stranded state lost unfinished =>
      exact .stranded (by rwa [InBodyState, hstate]) (howner.trans lost) unfinished

/-- A readable event writes to no header block that another connection holds. -/
theorem ReadsHeader.others (h : ReadsHeader s s' c env) (headers : s.Headers) (inv : s.Inv)
    (used : s.Used c) (hopen : s.Open d) (hd : d ≠ c) (mid : (s.conn d).curstat ≠ .hdInit)
    (info : (s.conn d).pHeaderinfo = some b) : s'.memory.get b = s.memory.get b := by
  have hptr : s.headerPtr d = some b := headerPtr_eq_some.mpr ⟨hopen.1, info⟩
  have hlt := headers.owned.past d b hptr
  cases h with
  | stays mid' memory state info' own => rw [memory]
  | @own b' mid' hopen' info' fate =>
      refine fate.only.other b ?_
      rintro rfl
      exact hd (headers.owned.unique c d b (headerPtr_eq_some.mpr ⟨used, info'⟩)
        ⟨hopen.1, inv.not_free hopen.2, mid⟩ hptr).symm
  | fresh init fed fate =>
      rw [fate.only.other b (Nat.ne_of_lt hlt), allocHeader_toBlocks,
        Heap.get_alloc_ne (Nat.ne_of_lt hlt)]
  | lost init starves waits =>
      rw [waits.memory, allocHeader_toBlocks, Heap.get_alloc_ne (Nat.ne_of_lt hlt)]

/-- An open connection that a step does not read from: it stays where it is in its stream, or
it is at the beginning of a new one. -/
inductive Carried (s s' : State) (d : ConnId) : Prop
  | kept (opened : s.Open d) (use : s'.history.use d = s.history.use d)
      (standing : ∀ seq use got, Standing s d seq use got → Standing s' d seq use got)
  | begun (use : s.history.use d < s'.history.use d)
      (standing : ∀ seq use, Standing s' d seq use [])

theorem Carried.trans (h : t.Open d → Carried s t d) (h' : Carried t s' d)
    (grows : s.history.use d ≤ t.history.use d) : Carried s s' d := by
  cases h' with
  | begun use standing => exact .begun (Nat.lt_of_le_of_lt grows use) standing
  | kept opened use standing =>
      cases h opened with
      | kept opened' use' standing' =>
          exact .kept opened' (use.trans use') fun seq use got hs =>
            standing seq use got (standing' seq use got hs)
      | begun use' standing' =>
          exact .begun (use ▸ use') fun seq use => standing seq use [] (standing' seq use)

theorem Carried.refl (hopen : s.Open d) : Carried s s d := .kept hopen rfl fun _ _ _ => id

theorem Aside.carried (h : Aside s s') (hopen : s'.Open d) : Carried s s' d :=
  .kept (h.still.opened d hopen) (by rw [h.still.use]) fun _ _ _ hs =>
    hs.undisturbed ⟨h.still.incoming d, fun _ _ _ => by rw [h.still.memory],
      fun _ _ => by rw [h.messages]⟩

/-- A part of a step, for a connection that it does not read from. -/
theorem Intake.carried (h : Intake asked s s') (bodies : s.Bodies) (headers : s.Headers)
    (hopen : s'.Open d) (unasked : ∀ env, ¬ asked s d env) : Carried s s' d := by
  cases h with
  | aside h => exact h.carried hopen
  | @reads c env inv used asks h =>
      have hdc : d ≠ c := by
        rintro rfl
        exact unasked env asks
      have hframe := readable_frame (inv.idle_of_used used) h
      have hold := hframe.opened hopen
      have hspares := (bodies.readable inv used h).2 d (inv.wired.used d hold.1).1 hdc
      have hreads := readable_readsHeader inv used headers h
      refine .kept hold (hframe.apart.use d hdc) fun _ _ _ hs => hs.undisturbed
        ⟨hframe.apart.incoming d hdc, fun mid b info => ?_, hspares.message⟩
      exact hreads.others headers inv used hold hdc mid info
  | @begins c inv begun renews lets =>
      by_cases hdc : d = c
      · subst hdc
        refine .begun ?_ fun _ _ => .start (congrArg Incoming.curstat renews.incoming)
        rw [begun.use, Function.update_self]
        exact Nat.lt_succ_self _
      · have hold := renews.apart.opened d hdc hopen
        have hspares := (bodies.begun inv begun renews.incoming lets).2 d
          (inv.wired.used d hold.1).1 hdc
        exact .kept hold (renews.apart.use d hdc) fun _ _ _ hs => hs.undisturbed
          ⟨renews.apart.incoming d hdc, fun _ _ _ => by rw [renews.memory], hspares.message⟩
  | returns inv h =>
      have helse := (h.bodies bodies inv).2 d hopen
      cases h with
      | @entry c front back count list counted =>
          exact .kept helse.opened rfl fun _ _ _ hs => hs.undisturbed
            ⟨helse.incoming, fun _ _ _ => rfl, helse.spares.message⟩

theorem Intake.use_le (h : Intake asked s s') (d : ConnId) :
    s.history.use d ≤ s'.history.use d := by
  cases h with
  | aside h => rw [h.still.use]
  | reads inv used asks h => rw [(readable_frame (inv.idle_of_used used) h).untouched.2]
  | begins inv begun renews lets => exact begun.use_le d
  | returns inv h =>
      cases h with
      | entry list counted => exact Nat.le_refl _

/-- Steps that do not read from the connection. -/
theorem Intakes.carried (h : Intakes asked s s') (regular : s.Regular)
    (unasked : ∀ t env, ¬ asked t d env) : s'.Open d → Carried s s' d := by
  induction h with
  | refl => exact .refl
  | @tail t u hs hstep ih =>
      have hregular := Intakes.regular hs regular
      have hgrows : s.history.use d ≤ t.history.use d := by
        clear hstep ih hregular
        induction hs with
        | refl => exact Nat.le_refl _
        | tail _ hstep ih => exact Nat.le_trans ih (hstep.use_le d)
      exact fun hopen =>
        .trans ih (hstep.carried hregular.bodies hregular.headers hopen (unasked t)) hgrows

/-! ### One step of the loop -/

theorem acceptLoop_queue {standby : ConnId} {answers : List AcceptAnswer} (inv : s.Inv)
    (h : s.acceptLoop standby env answers = some s') : s'.msgqueue = s.msgqueue := by
  obtain ⟨useAccept4, hcases⟩ := acceptLoop_cases inv h
  have hquiet : Quiet s { s with useAccept4 } :=
    quiet_of_view rfl rfl rfl rfl rfl rfl rfl rfl rfl rfl
  rcases hcases with rfl | ⟨connfd, hfd, hclosed, hadmits⟩
  · rfl
  · rcases hadmits.renews (hquiet.toNeutral.inv inv) hfd hclosed with rfl | ⟨c, hbegun, -⟩
    · rfl
    · exact hbegun.queue

theorem handleOut_queue {events : Mask} (inv : s.Inv) (ok : s.EventOk (c, events))
    (h : s.handleOut c events env = some s') : s'.msgqueue = s.msgqueue := by
  cases handleOut_cases inv ok h with
  | closes _ hused hinv hclose =>
      exact (closeAcceptedConnection_queue (hinv.idle_of_used hused) hclose).1
  | writes _ _ hwrite =>
      obtain ⟨queue, interest, wire, out, events, rfl⟩ := writable_frame hwrite
      rfl
  | skips => rfl

/-- Only an event of the batch may put something into the receive queue. -/
theorem loopStep_queue {action : LoopAction} (inv : s.Inv)
    (other : ∀ env, action ≠ .handleEvent env) (h : s.loopStep action = some s') :
    s'.msgqueue = s.msgqueue := by
  cases action with
  | epollWait events =>
      obtain ⟨reported, -, rfl⟩ := epollWait_reports h
      rfl
  | handleEvent env => exact absurd rfl (other env)
  | timerBegin curTime =>
      rcases (timerBegin_cases h).2 with rfl | ⟨queue, due, -, rfl⟩
      · rfl
      · rfl
  | timerCheck =>
      cases timeCheckingProc_cases h with
      | finished | outdated | heard | silent => rfl
  | timerDelete =>
      obtain ⟨head, due, curTime, -, rfl⟩ := timeOutDelete_cases h
      rfl
  | timerClose env =>
      obtain ⟨head, due, curTime, t, -, hused, hclose, rfl⟩ := timeOutClose_cases inv h
      exact (closeAcceptedConnection_queue (inv.idle_of_used hused) hclose).1
  | recycle times =>
      obtain ⟨t, recyThread, hrecycles, rfl⟩ := recyConnThreadFunc_recycles h
      show t.msgqueue = s.msgqueue
      clear h
      induction hrecycles with
      | refl => rfl
      | tail _ hentry ih =>
          refine .trans ?_ ih
          cases hentry with
          | entry list counted => rfl
  | shutdown =>
      obtain rfl := Option.some.inj h
      rfl

/-- The bytes that a step of the loop receives of an open connection. -/
def receives (s : State) (action : LoopAction) (c : ConnId) : List UInt8 :=
  match action, s.events with
  | .handleEvent env, (d, events) :: _ =>
      if d = c ∧ events.has epollin = true ∧ s.Open c then env.recv.bytes else []
  | _, _ => []

/-- What a step of the loop does to the streams: it receives nothing, or it reads from one
connection and hands over the packets that this completes. -/
inductive Follows (s : State) (action : LoopAction) (s' : State) : Prop
  | silent (nothing : ∀ d, s.receives action d = []) (queue : s'.msgqueue = s.msgqueue)
      (carried : ∀ d, s'.Open d → Carried s s' d)
  | reads {c : ConnId} (opened : s.Open c) (only : ∀ d, d ≠ c → s.receives action d = [])
      (queue : ∀ got, Standing s c (s.conn c).sequence (s.history.use c) got →
        s'.msgqueue = s.msgqueue ++ (packetFormat.frames (got ++ s.receives action c)).map
          (some ∘ packetMessage c (s.conn c).sequence (s.history.use c)))
      (standing : ∀ got, Standing s c (s.conn c).sequence (s.history.use c) got → s'.Open c →
        Standing s' c (s.conn c).sequence (s.history.use c)
          (packetFormat.rest (got ++ s.receives action c)))
      (use : s'.history.use c = s.history.use c)
      (carried : ∀ d, d ≠ c → s'.Open d → Carried s s' d)

theorem handleEvent_follows (inv : s.Inv) (regular : s.Regular)
    (h : s.handleEvent env = some s') : Follows s (.handleEvent env) s' := by
  obtain ⟨c, events, rest, t, hevent⟩ := handleEvent_cases inv h
  have haside : Aside s { s with events := rest } :=
    aside_conn rfl rfl ⟨rfl, rfl⟩ rfl fun _ => ⟨rfl, rfl⟩
  have htaken : Intake (fun _ _ _ => False) s { s with events := rest } := .aside haside
  have hregular := htaken.regular regular
  have hout := handleOut_aside hevent.between.inv hevent.still hevent.outward
  have hqueue := handleOut_queue hevent.between.inv hevent.still hevent.outward
  have hreceives : ∀ d, s.receives (.handleEvent env) d =
      if c = d ∧ events.has epollin = true ∧ s.Open d then env.recv.bytes else [] := fun d => by
    simp [receives, hevent.batch]
  have hunread : ∀ d, Intakes (fun _ e _ => e ≠ d) { s with events := rest } t →
      s'.Open d → Carried s s' d := fun d hin hopen => by
    have hfirst : Intakes (fun _ e _ => e ≠ d) s s' :=
      (hin.head (.aside haside)).tail (.aside hout)
    exact Intakes.carried hfirst regular (fun _ _ hne => hne rfl) hopen
  cases handleIn_cases hevent.taken.inv hevent.ok hevent.inward with
  | reads set used read =>
      have hframe := readable_frame (hevent.taken.inv.idle_of_used used) read
      have hothers : ∀ d, d ≠ c → s'.Open d → Carried s s' d := fun d hdc =>
        hunread d (.single (.reads hevent.taken.inv used (Ne.symm hdc) read))
      by_cases hopen : s.Open c
      · have hbytes : s.receives (.handleEvent env) c = env.recv.bytes := by
          rw [hreceives, if_pos ⟨rfl, set, hopen⟩]
        have hread : ∀ got, Standing s c (s.conn c).sequence (s.history.use c) got → _ :=
          fun got hs => readable_standing hevent.taken.inv hregular hopen
            (hs.undisturbed ⟨rfl, fun _ _ _ => rfl, fun _ _ => rfl⟩) read
        refine .reads hopen (fun d hdc => ?_) (fun got hs => ?_) (fun got hs hstill => ?_) ?_
          hothers
        · rw [hreceives, if_neg fun hboth => hdc hboth.1.symm]
        · rw [hqueue, hbytes, (hread got hs).1]
        · rw [hbytes]
          cases hout.carried hstill with
          | kept opened use standing => exact standing _ _ _ ((hread got hs).2 opened)
          | begun use standing =>
              rw [hout.still.use] at use
              exact absurd use (Nat.lt_irrefl _)
        · rw [hout.still.use, hframe.untouched.2]
      · have hnone : ∀ d, s.receives (.handleEvent env) d = [] := fun d => by
          rw [hreceives, if_neg]
          rintro ⟨rfl, -, hboth⟩
          exact hopen hboth
        have hread := readable_closed hevent.taken.inv used hopen read
        refine .silent hnone (hqueue.trans hread) fun d hstill => ?_
        by_cases hdc : d = c
        · subst hdc
          exact absurd (hframe.opened (hout.still.opened d hstill)) hopen
        · exact hothers d hdc hstill
  | accepts set standby accept =>
      have hunused : ¬ s.Used c := (hevent.taken.inv.wired.standby c standby).2.1
      have haccept : Intakes (fun _ _ _ => False) { s with events := rest } t :=
        acceptLoop_intakes hevent.taken.inv accept
      have hfirst : Intakes (fun _ _ _ => False) s s' :=
        (haccept.head (.aside haside)).tail (.aside hout)
      have hsame := acceptLoop_queue hevent.taken.inv accept
      refine .silent (fun d => ?_) (hqueue.trans hsame) fun d =>
        Intakes.carried hfirst regular fun _ _ => id
      rw [hreceives, if_neg]
      rintro ⟨rfl, -, hopen⟩
      exact hunused hopen.1
  | skips unset =>
      refine .silent (fun d => ?_) hqueue fun d => hunread d .refl
      rw [hreceives, if_neg fun hboth => unset hboth.2.1]

theorem loopStep_follows {action : LoopAction} (inv : s.Inv) (regular : s.Regular)
    (h : s.loopStep action = some s') : Follows s action s' := by
  by_cases hevent : ∃ env, action = .handleEvent env
  · obtain ⟨env, rfl⟩ := hevent
    exact handleEvent_follows inv regular h
  · have hother : ∀ env, action ≠ .handleEvent env := fun env heq => hevent ⟨env, heq⟩
    refine .silent (fun d => ?_) (loopStep_queue inv hother h) fun d => ?_
    · cases action with
      | handleEvent env => exact absurd rfl (hother env)
      | epollWait | timerBegin | timerCheck | timerDelete | timerClose | recycle | shutdown => rfl
    · have hstep : Server.step s (.loop action) = some s' := h
      exact Intakes.carried (Server.step_intakes inv hstep) regular fun t env hasked =>
        hother env (Server.Action.loop.inj hasked.1.1)

end State

end MyNginx
