import MyNginx.Startup.System

/-!
# What `main` leaves open

If the descriptors 0, 1 and 2 are open at first, then the log and the listening sockets get
others, so that `daemon_process` does not take them away; what is open in the end, and where
each line has gone, is known on every path.
-/

namespace MyNginx

open Foundation Log

namespace Startup

variable {env : Environment} {s s' : State} {base : Descriptors File} {items : List ConfItem}
  {call : Call} {extra : List (Nat × File)} {i isock : Nat}

/-- The descriptors 0, 1 and 2 are open. -/
def Standard (files : Descriptors File) : Prop := ∀ fd ≤ 2, files.get fd ≠ none

/-- The first `n` descriptors have been redirected. -/
def toNull (files : Descriptors File) : Nat → Descriptors File
  | 0 => files
  | n + 1 => (toNull files n).set n (some .null)

/-- The listening socket of an item. -/
def ListeningT.entry (item : ListeningT) : Nat × File :=
  (item.fd, .socket ⟨true, true, true, some (BitVec.ofInt 16 item.port), true⟩)

/-- The descriptor of the log, unless it is `stderr`. -/
def LogT.entries (log : LogT) : List (Nat × File) :=
  if log.fd = 2 then [] else [(log.fd.toNat, .log)]

namespace State

def sockets (s : State) : List (Nat × File) := s.listenSocketList.map ListeningT.entry

/-- What the process has opened for good. -/
def held (s : State) : List (Nat × File) := s.logS.entries ++ s.sockets

/-- The process has opened that and `extra`, and has written its lines to the log or to
`stderr`. -/
structure Holds (base : Descriptors File) (s : State) (extra : List (Nat × File)) : Prop where
  adds : Adds base s.files (s.held ++ extra)
  log : s.logS.fd = 2 ∨ 0 ≤ s.logS.fd
  lines : ∀ line ∈ s.lines, line.2 = none ∨ line.2 = some .log ∨ line.2 = base.get 2

/-- What the lines, the sockets and `/dev/null` leave alone. -/
structure Frame (s s' : State) : Prop where
  logS : s'.logS = s.logS
  conf : s'.conf = s.conf
  disposition : s'.disposition = s.disposition
  gDaemonized : s'.gDaemonized = s.gDaemonized

theorem Frame.refl (s : State) : Frame s s := ⟨rfl, rfl, rfl, rfl⟩

theorem Frame.trans {t : State} (first : Frame s s') (second : Frame s' t) : Frame s t :=
  ⟨second.logS.trans first.logS, second.conf.trans first.conf,
    second.disposition.trans first.disposition, second.gDaemonized.trans first.gDaemonized⟩

theorem logErrorCore_eq (h : s.logErrorCore env call = some s') :
    s' = { s with lines := s.lines ++ [(call, s.writeRecord env call)] } := by
  simp only [State.logErrorCore, Option.map_eq_some_iff] at h
  obtain ⟨-, -, rfl⟩ := h
  rfl

namespace Holds

theorem stderr (h : s.Holds base extra) (std : Standard base) : s.file 2 = base.get 2 := by
  rw [file, if_pos (by decide)]
  refine h.adds.kept 2 fun hmem => ?_
  obtain ⟨entry, hentry, heq⟩ := List.mem_map.mp hmem
  exact h.adds.ne_of_mem hentry (std 2 (Nat.le_refl 2)) heq

theorem file_log (h : s.Holds base extra) (std : Standard base) :
    s.file s.logS.fd = some .log ∨ s.file s.logS.fd = base.get 2 := by
  by_cases hfd : s.logS.fd = 2
  · rw [hfd]
    exact .inr (h.stderr std)
  · have hnonneg := h.log.resolve_left hfd
    have hmem : (s.logS.fd.toNat, File.log) ∈ s.held ++ extra := by
      simp [held, LogT.entries, hfd]
    rw [file, if_pos hnonneg]
    exact .inl (h.adds.opened _ hmem)

theorem fallback (h : s.Holds base extra) (std : Standard base) (env : Environment) :
    s.fallback env = none ∨ s.fallback env = base.get 2 := by
  rw [State.fallback]
  split
  · exact .inr (h.stderr std)
  · exact .inl rfl

theorem writeRecord (h : s.Holds base extra) (std : Standard base) (env : Environment)
    (call : Call) : s.writeRecord env call = none ∨ s.writeRecord env call = some .log ∨
      s.writeRecord env call = base.get 2 := by
  have hfallback := h.fallback std env
  rw [State.writeRecord]
  split
  · split
    · exact hfallback.imp id .inr
    next file hfile =>
      split
      · rw [← hfile]
        exact .inr (h.file_log std)
      · exact .inl rfl
      · exact hfallback.imp id .inr
  · exact .inl rfl

theorem logErrorCore (h : s.Holds base extra) (std : Standard base)
    (hs : s.logErrorCore env call = some s') : s'.Holds base extra := by
  obtain rfl := logErrorCore_eq hs
  refine ⟨h.adds, h.log, fun line hmem => ?_⟩
  rcases List.mem_append.mp hmem with hold | hnew
  · exact h.lines line hold
  · rw [List.mem_singleton.mp hnew]
    exact h.writeRecord std env call

/-- A line, and what follows it. -/
theorem logged {α : Type} (h : s.Holds base extra) (std : Standard base) {f : State → α}
    {result : α} (hs : (s.logErrorCore env call).map f = some result) :
    ∃ t, t = { s with lines := s.lines ++ [(call, s.writeRecord env call)] } ∧
      t.Holds base extra ∧ f t = result := by
  obtain ⟨t, ht, hresult⟩ := Option.map_eq_some_iff.mp hs
  exact ⟨t, logErrorCore_eq ht, h.logErrorCore std ht, hresult⟩

/-- A new descriptor. -/
theorem add (h : s.Holds base []) (file : File) :
    Holds base { s with files := s.files.add file } [(s.files.lowest, file)] := by
  have hadds := h.adds
  rw [List.append_nil] at hadds
  exact ⟨hadds.add file, h.log, h.lines⟩

theorem close {fd : Nat} {file : File} (h : s.Holds base [(fd, file)]) :
    Holds base { s with files := s.files.close fd } [] :=
  ⟨h.adds.close, h.log, h.lines⟩

theorem onSocket {object : Socket} (h : s.Holds base [(isock, .socket object)])
    (f : Socket → Socket) : (s.onSocket isock f).Holds base [(isock, .socket (f object))] :=
  ⟨h.adds.modify (File.onSocket f), h.log, h.lines⟩

/-- A descriptor other than `stderr` is redirected. -/
theorem dup {fd n : Nat} (h : s.Holds base [(fd, .null)]) (std : Standard base) (hn : n < 2) :
    Holds (base.set n (some .null)) { s with files := s.files.dup fd n } [(fd, .null)] := by
  have hnull : s.files.get fd = some .null := h.adds.opened (fd, .null) (by simp)
  have hstderr : (base.set n (some .null)).get 2 = base.get 2 :=
    base.get_set_of_ne (by omega) (some .null)
  refine ⟨?_, h.log, hstderr ▸ h.lines⟩
  rw [Descriptors.dup, hnull]
  exact h.adds.redirect (std n (by omega)) (some .null)

end Holds

theorem standard_set {n : Nat} (std : Standard base) (file : File) :
    Standard (base.set n (some file)) := fun fd hfd => by
  by_cases hn : fd = n
  · subst hn
    simp
  · rw [base.get_set_of_ne hn]
    exact std fd hfd

/-- A round of the loop over the ports. -/
structure Round (base : Descriptors File) (items : List ConfItem) (i : Nat) (s : State) (ok : Bool)
    (s' : State) : Prop where
  holds : s'.Holds base []
  frame : Frame s s'
  failed : ok = false → s'.listenSocketList = s.listenSocketList
  opened : ok = true → ∃ item, s'.listenSocketList = s.listenSocketList ++ [item] ∧
    CConfig.getInt (listenPort i) (9000 + i) items = some item.port

variable {ok : Bool} {answers : RoundAnswers}

/-- The first steps of a round. -/
theorem Round.behind {t : State} (h : Round base items i t ok s') (frame : Frame s t)
    (same : t.listenSocketList = s.listenSocketList) : Round base items i s ok s' :=
  ⟨h.holds, frame.trans h.frame, fun hok => (h.failed hok).trans same,
    fun hok => same ▸ h.opened hok⟩

theorem round_giveUp {file : File} (h : s.Holds base [(isock, file)]) (std : Standard base)
    (hs : s.giveUp env isock call = some (ok, s')) : Round base items i s ok s' := by
  obtain ⟨_, rfl, hholds, hresult⟩ := h.logged std hs
  obtain ⟨rfl, rfl⟩ := Prod.mk.inj hresult
  exact ⟨hholds.close, ⟨rfl, rfl, rfl, rfl⟩, fun _ => rfl, Bool.noConfusion⟩

theorem round_bindAndListen {iport : Int}
    (h : s.Holds base [(isock, .socket ⟨true, true, true, none, false⟩)]) (std : Standard base)
    (port : CConfig.getInt (listenPort i) (9000 + i) items = some iport)
    (hs : s.bindAndListen env answers isock iport = some (ok, s')) :
    Round base items i s ok s' := by
  rw [bindAndListen] at hs
  split at hs
  · exact round_giveUp h std hs
  · have hbound := h.onSocket fun socket => { socket with port := some (BitVec.ofInt 16 iport) }
    dsimp only at hs
    split at hs
    · exact (round_giveUp hbound std hs).behind ⟨rfl, rfl, rfl, rfl⟩ rfl
    · have hlistening := hbound.onSocket fun socket => { socket with listening := true }
      obtain ⟨_, rfl, hlogged, hresult⟩ := hlistening.logged std hs
      obtain ⟨rfl, rfl⟩ := Prod.mk.inj hresult
      refine ⟨⟨?_, hlogged.log, hlogged.lines⟩, ⟨rfl, rfl, rfl, rfl⟩, Bool.noConfusion,
        fun _ => ⟨_, rfl, port⟩⟩
      have hadds := hlogged.adds
      rw [held, List.append_assoc] at hadds
      rw [List.append_nil, held, sockets, List.map_append]
      exact hadds

theorem round_setOptions (h : s.Holds base [(isock, .socket .fresh)]) (std : Standard base)
    (hs : s.setOptions env answers items i isock = some (ok, s')) :
    Round base items i s ok s' := by
  rw [setOptions] at hs
  split at hs
  · exact round_giveUp h std hs
  · have haddr := h.onSocket fun socket => { socket with reuseaddr := true }
    dsimp only at hs
    split at hs
    · exact (round_giveUp haddr std hs).behind ⟨rfl, rfl, rfl, rfl⟩ rfl
    · have hport := haddr.onSocket fun socket => { socket with reuseport := true }
      split at hs
      · obtain ⟨t, ht, hgive⟩ := Option.bind_eq_some_iff.mp hs
        have hlogged := hport.logErrorCore std ht
        obtain rfl := logErrorCore_eq ht
        exact (round_giveUp hlogged std hgive).behind ⟨rfl, rfl, rfl, rfl⟩ rfl
      · have hnonblocking := hport.onSocket fun socket => { socket with nonblocking := true }
        obtain ⟨iport, hiport, hbind⟩ := Option.bind_eq_some_iff.mp hs
        exact (round_bindAndListen hnonblocking std hiport hbind).behind ⟨rfl, rfl, rfl, rfl⟩ rfl

theorem round_openListenSocket (h : s.Holds base []) (std : Standard base)
    (hs : s.openListenSocket env items i = some (ok, s')) : Round base items i s ok s' := by
  rw [openListenSocket] at hs
  split at hs
  · obtain ⟨_, rfl, hlogged, hresult⟩ := h.logged std hs
    obtain ⟨rfl, rfl⟩ := Prod.mk.inj hresult
    exact ⟨hlogged, ⟨rfl, rfl, rfl, rfl⟩, fun _ => rfl, Bool.noConfusion⟩
  · exact (round_setOptions (h.add (.socket .fresh)) std hs).behind ⟨rfl, rfl, rfl, rfl⟩ rfl

/-- The sockets of the ports from `i` on. -/
def Ports (items : List ConfItem) (i : Nat) (opened : List ListeningT) : Prop :=
  ∀ j item, opened[j]? = some item →
    CConfig.getInt (listenPort (i + j)) (9000 + (i + j : Nat)) items = some item.port

theorem openListenLoop_holds {rounds : Nat} (h : s.Holds base []) (std : Standard base)
    (hs : openListenLoop env items rounds i s = some (ok, s')) :
    s'.Holds base [] ∧ Frame s s' ∧ (ok = true → s'.listenSocketList ≠ [] ∧
      ∃ opened, s'.listenSocketList = s.listenSocketList ++ opened ∧ opened.length = rounds ∧
        Ports items i opened) := by
  induction rounds generalizing i s with
  | zero =>
      obtain ⟨hok, rfl⟩ := Prod.mk.inj (Option.some.inj hs)
      refine ⟨h, .refl s, fun hsome => ⟨?_, [], by simp, rfl, by simp [Ports]⟩⟩
      rw [← hok] at hsome
      simpa using hsome
  | succ rounds ih =>
      obtain ⟨⟨fine, t⟩, ht, hrest⟩ := Option.bind_eq_some_iff.mp hs
      have hround := round_openListenSocket h std ht
      cases fine with
      | false =>
          obtain ⟨rfl, rfl⟩ := Prod.mk.inj (Option.some.inj hrest)
          exact ⟨hround.holds, hround.frame, Bool.noConfusion⟩
      | true =>
          obtain ⟨hholds, hframe, hsockets⟩ := ih hround.holds hrest
          refine ⟨hholds, hround.frame.trans hframe, fun hok => ?_⟩
          obtain ⟨item, hitem, hport⟩ := hround.opened rfl
          obtain ⟨hsome, opened, hlist, hlength, hports⟩ := hsockets hok
          refine ⟨hsome, item :: opened, by simp [hlist, hitem], by simp [hlength], fun j => ?_⟩
          cases j with
          | zero =>
              intro other hother
              obtain rfl := Option.some.inj hother
              exact hport
          | succ j =>
              intro other hother
              have hindex : i + (j + 1) = i + 1 + j := by omega
              rw [hindex]
              exact hports j other hother

theorem openListenSockets_holds (h : s.Holds base []) (std : Standard base)
    (hs : s.openListenSockets env items = some (ok, s')) (none : s.listenSocketList = []) :
    s'.Holds base [] ∧ Frame s s' ∧ (ok = true → s'.listenSocketList ≠ [] ∧
      s'.listenSocketList.length = s.conf.portCount.toNat ∧ Ports items 0 s'.listenSocketList) := by
  obtain ⟨hholds, hframe, hsockets⟩ := openListenLoop_holds h std hs
  refine ⟨hholds, hframe, fun hok => ?_⟩
  obtain ⟨hsome, opened, hlist, hlength, hports⟩ := hsockets hok
  rw [none, List.nil_append] at hlist
  rw [hlist] at hsome ⊢
  exact ⟨hsome, hlength, hports⟩

/-- The log is opened, or is `stderr`. -/
theorem initLog_holds (std : Standard env.files) (hs : env.state.initLog env items = some s) :
    s.Holds env.files [] ∧ s.listenSocketList = [] ∧ s.gDaemonized = false := by
  obtain ⟨logLevel, -, hopen⟩ := Option.bind_eq_some_iff.mp hs
  split at hopen
  · obtain rfl := Option.some.inj hopen
    have hfd : ((env.files.lowest : Nat) : Int) ≠ 2 := fun hfd => by
      have hlowest : env.files.lowest = 2 := by omega
      exact std 2 (Nat.le_refl 2) (hlowest ▸ env.files.get_lowest)
    refine ⟨⟨?_, .inr (Int.natCast_nonneg _), by simp [Environment.state]⟩, rfl, rfl⟩
    have hentries : LogT.entries ⟨logLevel, env.files.lowest⟩ = [(env.files.lowest, .log)] :=
      if_neg hfd
    have hadds := (Adds.refl env.files).add File.log
    simpa [held, hentries, sockets, Environment.state] using hadds
  · obtain ⟨t, ht, rfl⟩ := Option.map_eq_some_iff.mp hopen
    obtain rfl := logErrorCore_eq ht
    refine ⟨⟨.refl _, .inl rfl, fun line hmem => ?_⟩, rfl, rfl⟩
    obtain rfl := List.mem_singleton.mp hmem
    have hstderr : State.file env.state 2 = env.files.get 2 := if_pos (by decide)
    have hlog : State.file { env.state with logS := ⟨logLevel, -1⟩ } (-1) = none :=
      if_neg (by decide)
    rw [writeRecord]
    split
    · simp only [hlog, State.fallback]
      split
      · exact .inr (.inr hstderr)
      · exact .inl rfl
    · exact .inl rfl

theorem initSignalsLoop_holds {rest : List Signal.SignalT} (h : s.Holds base [])
    (std : Standard base) (hs : initSignalsLoop env rest i s = some (ok, s')) :
    s'.Holds base [] ∧ s'.listenSocketList = s.listenSocketList ∧
      s'.gDaemonized = s.gDaemonized := by
  induction rest generalizing i s with
  | nil =>
      obtain ⟨-, rfl⟩ := Prod.mk.inj (Option.some.inj hs)
      exact ⟨h, rfl, rfl⟩
  | cons sig rest ih =>
      rw [initSignalsLoop] at hs
      split at hs
      · obtain ⟨_, rfl, hlogged, hresult⟩ := h.logged std hs
        obtain ⟨-, rfl⟩ := Prod.mk.inj hresult
        exact ⟨hlogged, rfl, rfl⟩
      · obtain ⟨t, ht, hrest⟩ := Option.bind_eq_some_iff.mp hs
        have hdisposed : Holds base { s with
            disposition := Function.update s.disposition sig.signo
              (if sig.handler then .handler else .ignore) } [] := ⟨h.adds, h.log, h.lines⟩
        have hlogged := hdisposed.logErrorCore std ht
        obtain ⟨hholds, hlist, hdaemon⟩ := ih hlogged hrest
        obtain rfl := logErrorCore_eq ht
        exact ⟨hholds, hlist, hdaemon⟩

/-! ### The daemon -/

/-- Two descriptors are redirected, or fewer where it fails; `/dev/null` may stay open there. -/
structure Daemon (base : Descriptors File) (s : State) (code : Int) (s' : State) : Prop where
  holds : ∃ n ≤ 2, ∃ left, (left = [] ∨ ∃ fd, left = [(fd, File.null)]) ∧
    s'.Holds (toNull base n) left ∧ (code = 0 → n = 2 ∧ left = []) ∧
      (code = 1 → n = 0 ∧ left = [])
  frame : Frame s s'
  sockets : s'.listenSocketList = s.listenSocketList
  code : code = -1 ∨ code = 0 ∨ code = 1

variable {code : Int}

/-- The first steps of `daemon_process`. -/
theorem Daemon.behind {t : State} (h : Daemon base t code s') (frame : Frame s t)
    (same : t.listenSocketList = s.listenSocketList) : Daemon base s code s' :=
  ⟨h.holds, frame.trans h.frame, h.sockets.trans same, h.code⟩

theorem daemon_failed {n : Nat} {left : List (Nat × File)}
    (hleft : left = [] ∨ ∃ fd, left = [(fd, File.null)])
    (h : s.Holds (toNull base n) left) (hn : n ≤ 2) (std : Standard (toNull base n))
    (hs : (s.logErrorCore env call).map (fun s => ((-1 : Int), s)) = some (code, s')) :
    Daemon base s code s' := by
  obtain ⟨_, rfl, hlogged, hresult⟩ := h.logged std hs
  obtain ⟨rfl, rfl⟩ := Prod.mk.inj hresult
  exact ⟨⟨n, hn, left, hleft, hlogged, by simp⟩, ⟨rfl, rfl, rfl, rfl⟩, rfl, .inl rfl⟩

theorem daemon_redirect {fd : Nat} (h : s.Holds base [(fd, .null)]) (std : Standard base)
    (hs : s.redirect env fd = some (code, s')) : Daemon base s code s' := by
  have hthree : 2 < fd := by
    by_contra hlow
    have hmem : (fd, File.null) ∈ s.held ++ [(fd, .null)] := by simp
    exact h.adds.ne_of_mem hmem (std fd (by omega)) rfl
  rw [redirect] at hs
  split at hs
  · exact daemon_failed (n := 0) (.inr ⟨fd, rfl⟩) h (by omega) std hs
  · have hstdin : Holds (toNull base 1) { s with files := s.files.dup fd 0 } [(fd, .null)] :=
      h.dup (n := 0) std (by decide)
    have std₁ : Standard (toNull base 1) := standard_set std .null
    split at hs
    · exact (daemon_failed (n := 1) (.inr ⟨fd, rfl⟩) hstdin (by omega) std₁ hs).behind
        ⟨rfl, rfl, rfl, rfl⟩ rfl
    · have hstdout : Holds (toNull base 2)
          { s with files := (s.files.dup fd 0).dup fd 1 } [(fd, .null)] :=
        hstdin.dup (n := 1) std₁ (by decide)
      have std₂ : Standard (toNull base 2) := standard_set std₁ .null
      have hclosed := hstdout.close
      rw [if_neg (by omega)] at hs
      split at hs
      · exact (daemon_failed (n := 2) (.inl rfl) hclosed (by omega) std₂ hs).behind
          ⟨rfl, rfl, rfl, rfl⟩ rfl
      · obtain ⟨rfl, rfl⟩ := Prod.mk.inj (Option.some.inj hs)
        exact ⟨⟨2, by omega, [], .inl rfl, hclosed, by simp⟩, ⟨rfl, rfl, rfl, rfl⟩, rfl,
          .inr (.inl rfl)⟩

theorem daemon_daemonProcess (h : s.Holds base []) (std : Standard base)
    (hs : s.daemonProcess env = some (code, s')) : Daemon base s code s' := by
  rw [daemonProcess] at hs
  split at hs
  · exact daemon_failed (n := 0) (.inl rfl) h (by omega) std hs
  · obtain ⟨rfl, rfl⟩ := Prod.mk.inj (Option.some.inj hs)
    exact ⟨⟨0, by omega, [], .inl rfl, h, by simp⟩, .refl s, rfl, .inr (.inr rfl)⟩
  next pid hfork =>
    have hchild : Holds base { s with parentPid := s.curPid, masterPid := pid, curPid := pid } [] :=
      ⟨h.adds, h.log, h.lines⟩
    split at hs
    · exact (daemon_failed (n := 0) (.inl rfl) hchild (by omega) std hs).behind
        ⟨rfl, rfl, rfl, rfl⟩ rfl
    · split at hs
      · exact (daemon_failed (n := 0) (.inl rfl) hchild (by omega) std hs).behind
          ⟨rfl, rfl, rfl, rfl⟩ rfl
      · exact (daemon_redirect (hchild.add .null) std hs).behind ⟨rfl, rfl, rfl, rfl⟩ rfl

/-- `freeresource` closes the log. -/
theorem freeresource_adds (h : s.Holds base extra) :
    Adds base s.freeresource.files (s.sockets ++ extra) := by
  have hadds := h.adds
  rw [held, LogT.entries] at hadds
  rw [freeresource]
  by_cases hfd : s.logS.fd = 2
  · rw [if_pos hfd] at hadds
    rw [if_neg (by simp [hfd])]
    exact hadds
  · have hnonneg := h.log.resolve_left hfd
    rw [if_neg hfd] at hadds
    rw [if_pos ⟨hfd, by omega⟩]
    have hfirst : Adds base s.files ([] ++ (s.logS.fd.toNat, .log) :: (s.sockets ++ extra)) := hadds
    exact hfirst.close

end State

end Startup

end MyNginx
