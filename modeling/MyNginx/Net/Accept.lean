import MyNginx.Net.Time

/-!
# Accepting a connection

`event_accept_handler` of `socket_accept.cxx`. The static variable
`use_accept4` is a member of the state.
-/

namespace MyNginx

open Foundation

namespace State

/-- An `int` converted to `size_t`. -/
def toSizeT (n : Int) : Int := n % 2 ^ 64

/-- The two comparisons that keep the size of the pool under control. -/
def poolExhausted (s : State) : Bool :=
  s.connectionList.length > toSizeT (s.conf.workerConnections * 5) &&
    s.freeConnectionList.length < toSizeT s.conf.workerConnections

/-- The part of `event_accept_handler` behind a successful `accept`. A failed
`setnonblocking` exits; `m_worker_connections * 5` must not overflow an `int`. -/
def acceptClient (s : State) (connfd : Fd) (env : Env) : Option State :=
  if s.onlineCount ≥ s.conf.workerConnections then some (s.closeFd connfd)
  else if s.conf.workerConnections * 5 < -2 ^ 31 ∨ 2 ^ 31 ≤ s.conf.workerConnections * 5 then none
  else if s.poolExhausted then some (s.closeFd connfd)
  else
    let (s, c) := s.getConnectionItem
    if s.useAccept4 = false ∧ env.nonblock = false then none
    else
      let s := (s.getOneToUse c env.now).modifyConn c fun conn =>
        { conn with fd := connfd, rhandler := some .readable, whandler := some .writable }
      match s.epollOperEvent connfd .add (epollin ||| epollrdhup) 0 c env.ctl with
      | (s, 0) =>
          let s := if s.conf.timeEnable = 1 then s.addToTimerQueue c env.later else s
          some { s with onlineCount := s.onlineCount + 1 }
      | (s, _) => s.closeConnection c env

/-- The `while` loop of `event_accept_handler`. The kernel never hands out a
descriptor that is still open. -/
def acceptLoop (s : State) (standby : ConnId) (env : Env) : List AcceptAnswer → Option State
  | [] => none
  | .failed errno :: answers =>
      if errno = .eagain then some s
      else if s.useAccept4 ∧ errno = .enosys then
        acceptLoop { s with useAccept4 := false } standby env answers
      else some s
  | .accepted connfd :: _ =>
      if 0 ≤ connfd ∧ s.openFds connfd = false ∧ s.openFds (s.conn standby).fd then
        acceptClient { s with openFds := Function.update s.openFds connfd true } connfd env
      else none

def eventAcceptHandler (s : State) (standby : ConnId) (env : Env) : Option State :=
  s.acceptLoop standby env env.accept

end State

end MyNginx
