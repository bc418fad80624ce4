import MyNginx.Requests.Validation
import MyNginx.Sending.Order
import MyNginx.Sending.Requests

/-!
# Replies to requests

What a handler answers depends on the request alone, as long as its connection is found
current; `answer` is that reply. A worker has made at most one reply of each message that it
has taken, so the replies that were ever put into the list are answers to packets of the
client, each to another one.
-/

namespace MyNginx

open Foundation

/-- The reply to a message whose connection is current. -/
def answer (msg : Message) : Option Reply :=
  if CrcOk msg.buf ∧ structLength (msgCode msg.buf) = some (bodyLen msg.buf) then
    if msgCode msg.buf = 0 then some (replyTo msg cmdPing 0 [] length_noBody_lt)
    else if msgCode msg.buf = 5 then
      let body := List.replicate lenStructRegister 0
      some (replyTo msg cmdRegister (Crc32.getCrc body).toNat body
        (length_zeros_lt lenStructRegister_lt))
    else
      let body := List.replicate lenStructLogin 0
      some (replyTo msg cmdLogin (Crc32.getCrc body).toNat body
        (length_zeros_lt lenStructLogin_lt))
  else none

/-- An answer goes where the request came from. -/
theorem answer_head {msg : Message} {reply : Reply} (h : answer msg = some reply) :
    reply.head = msg.head ∧ reply.origin = msg.origin := by
  simp only [answer] at h
  split at h
  · split at h
    · obtain rfl := Option.some.inj h
      exact ⟨rfl, rfl⟩
    split at h
    · obtain rfl := Option.some.inj h
      exact ⟨rfl, rfl⟩
    · obtain rfl := Option.some.inj h
      exact ⟨rfl, rfl⟩
  · cases h

namespace State

variable {s s' : State} {msg : Message} {now : Time} {r : Option Reply}

theorem handleStruct_reply {lenStruct cmd : Nat} (hlen : lenStruct < 65528)
    (current : (s.conn msg.head.lpCurconn).judgeOutdate msg.head.msgCursequence = true) :
    (handleStruct lenStruct cmd hlen s msg now).2 =
      if some lenStruct = some (bodyLen msg.buf) then
        some (replyTo msg cmd (Crc32.getCrc (List.replicate lenStruct 0)).toNat
          (List.replicate lenStruct 0) (length_zeros_lt hlen))
      else none := by
  by_cases hfit : some lenStruct = some (bodyLen msg.buf)
  · have hsame := (length_iff hlen msg.buf).mpr hfit
    rw [handleStruct, if_neg (not_not.mpr hsame), if_neg (by simp [current]), if_pos hfit]
  · have hother := mt (length_iff hlen msg.buf).mp hfit
    rw [handleStruct, if_pos hother, if_neg hfit]

theorem handlePing_reply (s : State) (msg : Message) (now : Time) :
    (handlePing s msg now).2 =
      if some lenStructPing = some (bodyLen msg.buf) then
        some (replyTo msg cmdPing 0 [] length_noBody_lt)
      else none := by
  by_cases hfit : some lenStructPing = some (bodyLen msg.buf)
  · have hsame := (length_iff (by decide) msg.buf).mpr hfit
    rw [handlePing, if_neg (not_not.mpr hsame), if_pos hfit]
  · have hother := mt (length_iff (by decide) msg.buf).mp hfit
    rw [handlePing, if_pos hother, if_neg hfit]

/-- What `ThreadRecvProc` answers. -/
theorem threadRecvProc_answer (s : State) (msg : Message) (now : Time) :
    (s.threadRecvProc msg now).2 =
      if (s.conn msg.head.lpCurconn).judgeOutdate msg.head.msgCursequence = true then answer msg
      else none := by
  split
  next hcurrent =>
    by_cases hcrc : CrcOk msg.buf
    · rw [threadRecvProc_passed hcurrent hcrc]
      simp only [answer, hcrc, true_and]
      split
      next handler hget =>
        rcases mem_statusHandleset hget with ⟨hcode, rfl⟩ | ⟨hcode, rfl⟩ | ⟨hcode, rfl⟩
        · rw [handlePing_reply, hcode]
          rfl
        · rw [hcode]
          exact handleStruct_reply lenStructRegister_lt hcurrent
        · rw [hcode]
          exact handleStruct_reply lenStructLogin_lt hcurrent
      next hnone =>
        have hlength : structLength (msgCode msg.buf) = none := by
          unfold structLength
          split
          next hcode => exact absurd (by rw [hcode]; rfl) (hnone handlePing)
          next hcode => exact absurd (by rw [hcode]; rfl) (hnone handleRegister)
          next hcode => exact absurd (by rw [hcode]; rfl) (hnone handleLogin)
          next => rfl
        rw [hlength, if_neg (Option.some_ne_none _).symm]
    · rw [threadRecvProc_corrupt hcrc, answer, if_neg fun hboth => hcrc hboth.1]
  next houtdated => rw [threadRecvProc_outdated houtdated]

/-- A worker takes the first message, and answers it or not. -/
theorem takeMessage_answer (h : s.takeMessage now = some (s', r)) :
    ∃ first, s.msgqueue = first :: s'.msgqueue ∧
      ∀ reply, r = some reply → ∃ msg, first = some msg ∧ answer msg = some reply := by
  obtain ⟨first, hqueue⟩ := Sending.took_queue (takeMessage_took h)
  refine ⟨first, hqueue, fun reply hr => ?_⟩
  simp only [takeMessage, getMsgItem, hqueue, reduceCtorEq, if_false] at h
  cases first with
  | none =>
      obtain ⟨-, rfl⟩ := Prod.mk.inj (Option.some.inj h)
      cases hr
  | some msg =>
      have hanswer := threadRecvProc_answer
        { s with msgqueue := s'.msgqueue, msgqueueSize := s.msgqueueSize - 1 } msg now
      rw [Option.some.inj h] at hanswer
      refine ⟨msg, rfl, ?_⟩
      rw [hr] at hanswer
      split at hanswer
      · exact hanswer.symm
      · cases hanswer

end State

namespace Sending

open State

variable {n : Nat} {boot : Boot} {k k₀ k' : Config n} {action : Action n}
  {actions : List (Action n)} {c : ConnId} {u : Nat}

/-- The reply a thread of the pool has made and not yet put into the list. -/
def inHand (pc : WorkerPc) : Multiset Reply := pc.pending.elim 0 fun reply => {reply}

/-- The answers to the messages that have been taken. -/
def answers (taken : List (Option Message)) : List Reply := taken.filterMap fun m => m.bind answer

/-- The replies that have been made: those that were put into the list, and those in the
hands of the workers. -/
def Config.made (k : Config n) : Multiset Reply :=
  k.server.history.queued + ∑ w, inHand (k.workers w)

/-- A worker goes on; the others have what they had. -/
theorem sum_inHand_update (workers : Fin n → WorkerPc) (w : Fin n) (pc : WorkerPc) :
    ∑ v, inHand (Function.update workers w pc v) + inHand (workers w) =
      ∑ v, inHand (workers v) + inHand pc := by
  have hrest : ∀ f : Fin n → WorkerPc, ∑ v, inHand (f v) =
      inHand (f w) + ∑ v ∈ Finset.univ.erase w, inHand (f v) := fun f =>
    (Finset.add_sum_erase _ _ (Finset.mem_univ w)).symm
  have hsame : ∑ v ∈ Finset.univ.erase w, inHand (Function.update workers w pc v) =
      ∑ v ∈ Finset.univ.erase w, inHand (workers v) := by
    refine Finset.sum_congr rfl fun v hv => ?_
    rw [Function.update_of_ne (Finset.ne_of_mem_erase hv)]
  rw [hrest (Function.update workers w pc), hrest workers, hsame, Function.update_self]
  abel

/-- The loop and the threads beside it put nothing into the list. -/
theorem moves_queued {env : Env} {s s' : State} (h : Moves env s s') (inv : s.Inv)
    (cleared : s.Cleared) : s'.history.queued = s.history.queued := by
  induction h with
  | refl => rfl
  | tail hs hmove ih =>
      refine .trans ?_ ih
      rcases hmove.keeps (Moves.evolves hs inv).inv (Moves.cleared hs inv cleared) with
        hkeeps | ⟨c, -, hwrites⟩
      · exact hkeeps.queued
      · exact hwrites.queued

/-- A statement of `MsgSendInQueue` puts the reply of its thread into the list, keeps it or
drops it. -/
theorem advance_made {w : Fin n} {s' : State} {pc : WorkerPc} (inv : k.Inv)
    (h : k.server.msgSendStep (.worker w) (k.workers w) = some (s', pc)) :
    Config.made { k with server := s', workers := Function.update k.workers w pc } ≤ k.made := by
  have hhand := sum_inHand_update k.workers w pc
  rcases msgSendStep_advances (inv.hands w) h with
    ⟨reply, hlocked, rfl, -, hadvances⟩ | ⟨hpending, hadvances⟩
  · have hold : inHand (k.workers w) = {reply} := by rw [hlocked]; rfl
    have hnew : inHand (.pushed reply) = 0 := rfl
    rw [hold, hnew, add_zero] at hhand
    rw [Config.made, Config.made, hadvances.queued, ← hhand, ← Multiset.coe_add,
      Multiset.coe_singleton, add_assoc, add_comm ({reply} : Multiset Reply)]
  · have hless : inHand pc ≤ inHand (k.workers w) := by
      rcases hpending with hsame | hnone
      · rw [inHand, hsame, inHand]
      · rw [inHand, hnone]
        exact Multiset.zero_le _
    rw [Config.made, Config.made, hadvances.queued, List.append_nil]
    refine add_le_add_right (le_of_add_le_add_right (a := inHand (k.workers w)) ?_) _
    rw [hhand]
    exact add_le_add_right hless _

/-- The send thread puts nothing into the list. -/
theorem senderStep_queued {env : Env} {s' : State} {pc : SenderPc} (inv : k.Inv)
    (h : k.server.senderStep env k.sender = some (s', pc)) :
    s'.history.queued = k.server.history.queued := by
  rcases senderStep_cases inv.server h with
    ⟨i, reply, next, hpc, hreply, -, -⟩ | ⟨-, -, sendmutex, sendsem, rfl⟩
  · rw [hpc] at h
    obtain ⟨next, hsend⟩ := senderStep_scans hreply h
    obtain ⟨reply, -, queue, interest, wire, out, events, rfl⟩ := sendEntry_frame hsend
    rfl
  · rfl

/-- What one step adds to the replies is the answer to the message that it takes. -/
theorem step_made (inv : k.Inv) (own : action.own = true) (h : step k action = some k')
    {seen : Seen} (made : k.made ≤ answers seen.taken) :
    k'.made ≤ answers (observe k action k' seen).taken := by
  cases step_does inv h with
  | loop moves =>
      rw [Config.made, moves_queued moves inv.server inv.cleared]
      exact made
  | @take w now r s' idle handles makes =>
      obtain ⟨first, hqueue, hanswer⟩ := takeMessage_answer makes
      have htaken : answers (observe k (.take w now) (k.handled w (s', r)) seen).taken =
          answers seen.taken ++ (first.bind answer).toList := by
        rw [observe, hqueue, answers, answers, List.filterMap_append]
        refine congrArg (List.filterMap _ seen.taken ++ ·) ?_
        cases hfirst : first.bind answer <;> simp [hfirst]
      rw [htaken, ← Multiset.coe_add]
      cases r with
      | none =>
          rw [Config.made, handled_server, handles.queued]
          exact made.trans (Multiset.le_add_right _ _)
      | some reply =>
          obtain ⟨msg, rfl, hmsg⟩ := hanswer reply rfl
          have hhand := sum_inHand_update k.workers w (.entering reply)
          have hold : inHand (k.workers w) = 0 := by rw [idle]; rfl
          have hnew : inHand (.entering reply) = {reply} := rfl
          rw [hold, hnew, add_zero] at hhand
          have hmade : (k.handled w (s', some reply)).made = k.made + {reply} := by
            rw [Config.made, handled_server, handles.queued, Config.made, add_assoc]
            exact congrArg _ hhand
          rw [hmade, Option.bind_some, hmsg]
          exact add_le_add_left made _
  | call idle handles => cases own
  | advance advances => exact (advance_made inv advances).trans made
  | send sends =>
      rw [Config.made, senderStep_queued inv sends]
      exact made
  | interrupt waiting => exact made

/-- What every step of this server keeps, with what has been seen of the run. -/
structure Answered (w : Config n × Seen) : Prop where
  seen : Watched w
  made : w.1.made ≤ answers w.2.taken

theorem Answered.step {w w' : Config n × Seen} (h : Answered w) (own : action.own = true)
    (hs : watched step observe w action = some w') : Answered w' := by
  have hwatched := h.seen.step hs
  obtain ⟨k', hk, rfl⟩ := watched_eq_some.mp hs
  exact ⟨hwatched, step_made h.seen.inv own hk h.made⟩

theorem Starts.answered (h : Starts boot k) : Answered (k, Seen.start) := by
  refine ⟨h.watched, ?_⟩
  obtain ⟨⟨all, htaking⟩, -⟩ := h.1.spec
  have hqueued : k.server.history.queued = [] := by rw [htaking.history]; rfl
  rw [Config.made, h.2.1, hqueued]
  simp [inHand, WorkerPc.pending]

/-- The replies to the use number `u` of the object `c`. -/
def repliesTo (c : ConnId) (u : Nat) (replies : List Reply) : List Reply :=
  replies.filter fun reply => reply.head.lpCurconn = c ∧ reply.origin = u

/-- The answers to a use are the answers to its messages. -/
theorem repliesTo_answers (taken : List (Option Message)) :
    repliesTo c u (answers taken) = (requestsOf c u taken).filterMap answer := by
  rw [repliesTo, answers, requestsOf, List.filter_filterMap, List.filterMap_filterMap]
  refine congrArg (fun f => List.filterMap f taken) (funext fun m => ?_)
  cases m with
  | none => rfl
  | some msg =>
      rw [Option.bind_some]
      by_cases hmine : msg.head.lpCurconn = c ∧ msg.origin = u
      · rw [Option.filter_some_pos (by simpa using hmine), Option.bind_some]
        cases hanswer : answer msg with
        | none => rfl
        | some reply =>
            obtain ⟨hhead, horigin⟩ := answer_head hanswer
            rw [Option.filter_some_pos]
            simpa [hhead, horigin] using hmine
      · rw [Option.filter_some_neg (by simpa using hmine), Option.bind_none]
        cases hanswer : answer msg with
        | none => rfl
        | some reply =>
            obtain ⟨hhead, horigin⟩ := answer_head hanswer
            rw [Option.filter_some_neg]
            simpa [hhead, horigin] using hmine

theorem Answered.subperm {w : Config n × Seen} (h : Answered w) (c : ConnId) (u : Nat) :
    ∃ seq, (repliesTo c u w.1.server.history.queued).Subperm
      ((packetFormat.frames (w.2.stream c u)).filterMap fun packet =>
        answer (packetMessage c seq u packet)) := by
  obtain ⟨seq, -, hframes⟩ := h.seen.followed.framed c u
  refine ⟨seq, ?_⟩
  -- The messages taken come first among the frames.
  have htaken : ((requestsOf c u w.2.taken).filterMap answer).Sublist
      ((packetFormat.frames (w.2.stream c u)).filterMap fun packet =>
        answer (packetMessage c seq u packet)) := by
    have hprefix : (requestsOf c u w.2.taken).Sublist
        ((packetFormat.frames (w.2.stream c u)).map (packetMessage c seq u)) := by
      rw [← hframes, requestsOf_append]
      exact List.sublist_append_left _ _
    simpa [List.filterMap_map, Function.comp_def] using hprefix.filterMap answer
  rw [← repliesTo_answers] at htaken
  have hqueued : (w.1.server.history.queued : Multiset Reply) ≤ answers w.2.taken :=
    (Multiset.le_add_right _ _).trans h.made
  have hmine := Multiset.filter_le_filter
    (fun reply : Reply => reply.head.lpCurconn = c ∧ reply.origin = u) hqueued
  rw [Multiset.filter_coe, Multiset.filter_coe, Multiset.coe_le] at hmine
  exact List.Subperm.trans hmine htaken.subperm

/-- In every run of this server and for every use of every object: the replies that were ever
put into the list for this use are the answers to packets that it has sent, each to another
one. -/
theorem replies_answer {seen : Seen} (hstart : Starts boot k₀)
    (own : ∀ action ∈ actions, action.own = true)
    (hr : run (watched step observe) (k₀, Seen.start) actions = some (k, seen))
    (c : ConnId) (u : Nat) :
    ∃ seq, (repliesTo c u k.server.history.queued).Subperm
      ((packetFormat.frames (seen.stream c u)).filterMap fun packet =>
        answer (packetMessage c seq u packet)) := by
  have hall : Throughout (watched step observe) Answered (k₀, Seen.start) actions :=
    throughout_of_along (fun w action w' hw hown hs => hw.step hown hs) hstart.answered
      (along_of_forall own)
  exact (hall.last hr).subperm c u

theorem replies_answer_two_clients : ∃ (k₀ k : Config 1) (seen : Seen), Starts Boot.small k₀ ∧
    run (watched step observe) (k₀, Seen.start) (twoClients ++ enqueueBy onlyWorker) =
      some (k, seen) ∧ (repliesTo 2 1 k.server.history.queued).length = 1 ∧
    ∀ c u, ∃ seq, (repliesTo c u k.server.history.queued).Subperm
      ((packetFormat.frames (seen.stream c u)).filterMap fun packet =>
        answer (packetMessage c seq u packet)) := by
  have hrun : ((Boot.small.state.epollEventInit [true]).bind fun s =>
      (run (watched step observe) ((⟨s, fun _ => .idle, .looping⟩ : Config 1), Seen.start)
        (twoClients ++ enqueueBy onlyWorker)).map fun w =>
          decide ((repliesTo 2 1 w.1.server.history.queued).length = 1)) = some true := by
    decide +kernel
  obtain ⟨s, hstart, hrun⟩ := Option.bind_eq_some_iff.mp hrun
  obtain ⟨⟨k, seen⟩, hr, hdecide⟩ := Option.map_eq_some_iff.mp hrun
  have hstarts : Starts Boot.small (⟨s, fun _ => .idle, .looping⟩ : Config 1) :=
    ⟨⟨_, hstart⟩, rfl, rfl⟩
  exact ⟨_, k, seen, hstarts, hr, of_decide_eq_true hdecide,
    replies_answer hstarts (by decide) hr⟩

/-- The bytes written to an open connection are a part, from the beginning, of the packets of
some answers to its requests, each to another one. -/
def Served (w : Config n × Seen) : Prop :=
  ∀ c, w.1.server.Open c → ∃ (seq : Nat) (replies : List Reply),
    w.1.server.sentBytes c <+: replies.flatMap Reply.packet ∧ replies.Subperm (
      (packetFormat.frames (w.2.stream c (w.1.server.history.use c))).filterMap fun packet =>
        answer (packetMessage c seq (w.1.server.history.use c) packet))

theorem Answered.served {w : Config n × Seen} (h : Answered w)
    (flows : w.1.server.Flows w.1.sender) : Served w := by
  intro c hopen
  obtain ⟨-, done, sent, hsent, horder⟩ := (flows.stream c hopen).streamed (flows.directed.of_open hopen)
  obtain ⟨seq, hanswers⟩ := h.subperm c (w.1.server.history.use c)
  have hentered : w.1.server.entered c =
      repliesTo c (w.1.server.history.use c) w.1.server.history.queued := rfl
  rw [← hentered] at hanswers
  cases hbuf : (w.1.server.conn c).pSendbuf with
  | none =>
      rw [hbuf] at horder
      obtain ⟨rfl, horder⟩ := horder
      refine ⟨seq, done, by rw [hsent, List.append_nil], List.Subperm.trans ?_ hanswers⟩
      rw [horder]
      exact (List.sublist_append_left _ _).subperm
  | some p =>
      rw [hbuf] at horder
      obtain ⟨hpart, horder⟩ := horder
      refine ⟨seq, done ++ [p.reply], ?_, List.Subperm.trans ?_ hanswers⟩
      · rw [hsent, List.flatMap_append, List.flatMap_singleton, ← hpart]
        exact (List.prefix_append_right_inj _).mpr (List.prefix_append _ _)
      · rw [horder, List.append_cons done p.reply (w.1.server.waiting c)]
        exact (List.sublist_append_left _ _).subperm

end Sending

end MyNginx
