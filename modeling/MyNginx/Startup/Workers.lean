import MyNginx.Server.Descriptors
import MyNginx.Startup.Outcomes

/-!
# From the configuration to the workers

A worker process inherits the listening sockets of `main`. It enters its event loop if connection
objects are to be created. In each worker, and at every moment, each port of the configuration
has a standby connection of its own on the socket that `main` has bound to it.
-/

namespace MyNginx

open Foundation

namespace Startup

variable {env : Environment} {s : State} {items : List ConfItem} {i : Nat}

/-- `main` goes on only behind `Load`. -/
theorem cycles_of_main (std : Standard env.files) (hs : main env = some (.cycle s)) :
    ∃ items, CConfig.load [] env.content = some (.ok (true, items)) ∧ Cycles env items s := by
  rw [main] at hs
  split at hs
  next items hload =>
    rcases initServer_cases std hs with ⟨exitcode, t, hexit, -⟩ | ⟨t, hcycle, hcycles⟩
    · cases hexit
    · obtain rfl := Outcome.cycle.inj hcycle
      exact ⟨items, hload, hcycles⟩
  next =>
    obtain ⟨t, -, hexit⟩ := Option.map_eq_some_iff.mp hs
    cases hexit
  next => cases hs

namespace Cycles

/-- What `main` leaves to the workers; the memory of their connection objects is any. -/
def boot (h : Cycles env items s) (raw : ConnId → Connection) : Boot where
  conf := s.conf.toConf
  raw := raw
  listenFds := s.listenSocketList.map fun item => (item.fd : Fd)
  nodup := by
    have hdistinct := h.adds.distinct
    rw [State.held, List.map_append, List.nodup_append] at hdistinct
    have hsockets : (s.listenSocketList.map ListeningT.fd).Nodup := by
      have hfirsts := hdistinct.2.1
      rw [State.sockets, List.map_map] at hfirsts
      exact hfirsts
    have hcast := hsockets.map (f := fun fd : Nat => (fd : Fd)) Int.ofNat_injective
    rwa [List.map_map] at hcast
  nonneg fd hfd := by
    obtain ⟨item, -, rfl⟩ := List.mem_map.mp hfd
    exact Int.natCast_nonneg _

end Cycles

/-- In a worker, the port of `item` has its standby connection, on the socket that `main` has
bound; no other connection object ever has the descriptor. -/
structure Serves (s : State) (t : MyNginx.State) (item : ListeningT) : Prop where
  socket : s.files.get item.fd = some item.entry.2
  opened : t.openFds item.fd = true
  standby : ∃ pos ∈ t.listenSocketList, ∃ c, pos.pConnitem = some c ∧ pos.fd = item.fd ∧
    (t.conn c).fd = item.fd ∧ (t.conn c).rhandler = some .accept ∧ ¬ t.Used c ∧
    ∀ d ∈ t.connectionList, (t.conn d).fd = item.fd → d = c

namespace Cycles

theorem serves {raw : ConnId → Connection} {t : MyNginx.State} {item : ListeningT}
    (h : Cycles env items s) (reached : Server.Reachable (h.boot raw) t)
    (mem : item ∈ s.listenSocketList) : Serves s t item := by
  have inv := Server.reachable_inv reached
  obtain ⟨s₀, actions, hstart, hr⟩ := reached
  have hsockets : t.listenSocketList.map Listening.fd = (h.boot raw).listenFds := by
    rw [(Server.run_evolves hstart.inv hr).sockets]
    exact hstart.kernel.2
  have hfd : (item.fd : Fd) ∈ t.listenSocketList.map Listening.fd := by
    rw [hsockets]
    exact List.mem_map_of_mem mem
  obtain ⟨pos, hpos, hposfd⟩ := List.mem_map.mp hfd
  obtain ⟨c, hc, hcfd⟩ := inv.wired.sockets pos hpos
  obtain ⟨hobject, hunused, haccept⟩ :=
    inv.wired.standby c (MyNginx.State.mem_standbys.mpr ⟨pos, hpos, hc⟩)
  have hconn : (t.conn c).fd = item.fd := hcfd.trans hposfd
  have hopen : (t.conn c).fd ≠ -1 := by
    rw [hconn]
    change (item.fd : Int) ≠ -1
    omega
  have hmain : item.entry ∈ s.held :=
    List.mem_append_right _ (List.mem_map_of_mem mem)
  refine ⟨h.adds.opened item.entry hmain, hconn ▸ inv.wired.opened c hobject hopen, pos, hpos, c,
    hc, hposfd, hconn, haccept, hunused, fun d hd hdfd => ?_⟩
  exact inv.owner_unique hd hobject (hdfd.trans hconn.symm ▸ hopen) rfl (hconn.trans hdfd.symm)

end Cycles

/-- The counts of the configuration are those of the items. -/
theorem counts_of_readConf {conf : SocketConf} (h : State.readConf items = some conf) :
    CConfig.getInt (Log.bytes "ListenPortCount") 2 items = some conf.portCount ∧
      CConfig.getInt (Log.bytes "ConnectionsToCreate") 20 items =
        some conf.createConnectionsCount := by
  simp only [State.readConf, Option.bind_eq_bind, Option.bind_eq_some_iff] at h
  obtain ⟨_, -, portCount, hports, connections, hconnections, _, -, _, -, hrest⟩ := h
  split at hrest
  · obtain ⟨_, -, hconf⟩ := Option.bind_eq_some_iff.mp hrest
    obtain rfl := Option.some.inj hconf
    exact ⟨hports, hconnections⟩
  · obtain ⟨_, -, hconf⟩ := Option.bind_eq_some_iff.mp hrest
    obtain rfl := Option.some.inj hconf
    exact ⟨hports, hconnections⟩

/-- If the master enters its cycle, then a worker can enter its event loop with what `main`
leaves to it exactly if connection objects are to be created; and then, at every moment and for
each of the configured ports, there is a standby connection that alone has the socket bound to
the port. -/
theorem ports_served (std : Standard env.files) (hs : main env = some (.cycle s)) :
    ∃ items portCount connections,
      CConfig.load [] env.content = some (.ok (true, items)) ∧
      CConfig.getInt (Log.bytes "ListenPortCount") 2 items = some portCount ∧ 0 < portCount ∧
      CConfig.getInt (Log.bytes "ConnectionsToCreate") 20 items = some connections ∧
      ∀ raw, ∃ boot : Boot, boot.raw = raw ∧ boot.conf = s.conf.toConf ∧
        boot.listenFds = s.listenSocketList.map (fun item => (item.fd : Fd)) ∧
        ((∃ t, boot.Starts t) ↔ 0 < connections) ∧
        ∀ t, Server.Reachable boot t → ∀ i : Nat, i < portCount → ∃ item,
          s.listenSocketList[i]? = some item ∧
          CConfig.getInt (State.listenPort i) (9000 + i) items = some item.port ∧
          Serves s t item := by
  obtain ⟨items, hload, hcycles⟩ := cycles_of_main std hs
  obtain ⟨hcount, hconnections⟩ := counts_of_readConf hcycles.conf
  have hlength := hcycles.length
  have hpositive : 0 < s.listenSocketList.length := List.length_pos_iff.mpr hcycles.opened
  refine ⟨items, s.conf.portCount, s.conf.createConnectionsCount, hload, hcount, by omega,
    hconnections, fun raw => ⟨hcycles.boot raw, rfl, rfl, rfl, Boot.exists_starts,
      fun t reached i hi => ?_⟩⟩
  have hbound : i < s.listenSocketList.length := by omega
  have hitem := List.getElem?_eq_getElem hbound
  have hport := hcycles.ports i _ hitem
  rw [Nat.zero_add] at hport
  exact ⟨_, hitem, hport, hcycles.serves reached (List.getElem_mem hbound)⟩

/-- The first port of a daemon without a configuration, whose workers can be started. -/
theorem ports_served_small : ∃ s, main .small = some (.cycle s) ∧ ∀ raw, ∃ boot : Boot,
    boot.raw = raw ∧ (∃ t, boot.Starts t) ∧ ∀ t, Server.Reachable boot t →
      ∃ item ∈ s.listenSocketList, Serves s t item := by
  obtain ⟨outcome, houtcome, hreturns⟩ := Option.map_eq_some_iff.mp goes_small
  cases outcome with
  | exit exitcode s => cases hreturns
  | cycle s =>
      obtain ⟨items, portCount, connections, hload, -, hpositive, hconnections, hboots⟩ :=
        ports_served standard_standardFiles houtcome
      have hitems : items = [] := by
        cases hload
        rfl
      have htwenty : connections = 20 := by
        rw [hitems] at hconnections
        cases hconnections
        rfl
      refine ⟨s, houtcome, fun raw => ?_⟩
      obtain ⟨boot, hraw, -, -, hstarts, hserved⟩ := hboots raw
      refine ⟨boot, hraw, hstarts.mpr (htwenty ▸ by decide), fun t reached => ?_⟩
      obtain ⟨item, hitem, -, hserves⟩ := hserved t reached 0 hpositive
      exact ⟨item, List.mem_of_getElem? hitem, hserves⟩

end Startup

end MyNginx
