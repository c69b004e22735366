import Mathlib.Data.Int.CardIntervalMod
import ReMuduo.ChannelPointers

/-! # The loops of a server

`EventLoopThreadPool` (`src/base/EventLoopThreadPool.cpp`) starts the I/O loops of a server and
gives them to its connections in turn.  `TcpServer::start` (`src/base/TcpServer.cpp`) starts the
pool and then the acceptor; only the first call does anything.

`ReMuduo.ServerLoops` takes any loop for a new connection.  Here the server asks its pool, and
the acceptor is reported by the kernel only when it listens.  The methods of the pool and
`TcpServer::start` begin with assertions, which `failed` stands for; some of them ask which
thread makes the call.  A `caller` is the loop of that thread, `none` for a thread without one. -/
namespace ReMuduo

/-- The pool.  `startLoop` of the `i`-th thread has returned the `i`-th of the `loops`. -/
structure EventLoopThreadPool (ℓ : Type) where
  baseLoop : ℓ
  started : Bool
  numThreads : Nat
  next : Nat
  loops : List ℓ

namespace EventLoopThreadPool

variable {ℓ : Type} [DecidableEq ℓ]

def initial (baseLoop : ℓ) : EventLoopThreadPool ℓ := ⟨baseLoop, false, 0, 0, []⟩

def setThreadNum (p : EventLoopThreadPool ℓ) (n : Nat) : EventLoopThreadPool ℓ :=
  { p with numThreads := n }

/-- `baseLoop_->isInLoopThread()`. -/
def isInLoopThread (p : EventLoopThreadPool ℓ) (caller : Option ℓ) : Bool :=
  caller = some p.baseLoop

/-- `start`, where `startLoop` of the `i`-th thread returns `startLoop i`; `none` if
`assert(!started_)` or `assert(baseLoop_->isInLoopThread())` fails. -/
def start (p : EventLoopThreadPool ℓ) (caller : Option ℓ) (startLoop : Nat → ℓ) :
    Option (EventLoopThreadPool ℓ) :=
  if p.started then none
  else if p.isInLoopThread caller then
    some { p with
      started := true
      loops := p.loops ++ (List.range p.numThreads).map startLoop }
  else none

/-- `getNextLoop`; `none` if `assert(baseLoop_->isInLoopThread())` or `assert(started_)` fails,
or if `next_` is no index of `loops_`. -/
def getNextLoop (p : EventLoopThreadPool ℓ) (caller : Option ℓ) :
    Option (ℓ × EventLoopThreadPool ℓ) :=
  if p.isInLoopThread caller && p.started then
    if p.loops.isEmpty then some (p.baseLoop, p)
    else
      p.loops[p.next]?.map fun loop =>
        (loop, { p with next := if p.loops.length ≤ p.next + 1 then 0 else p.next + 1 })
  else none

/-- The loop whose turn it is when `k` connections have been given away. -/
def turn (p : EventLoopThreadPool ℓ) (k : Nat) : ℓ := p.loops[k % p.loops.length]?.getD p.baseLoop

variable {p p' : EventLoopThreadPool ℓ} {l : ℓ}

/-- `next_` counts the calls, modulo the number of loops. -/
def Counts (p : EventLoopThreadPool ℓ) (k : Nat) : Prop :=
  p.loops ≠ [] → p.next = k % p.loops.length

/-- One call of `getNextLoop`. -/
theorem getNextLoop_eq {k : Nat} (hstarted : p.started = true) (hcounts : p.Counts k) :
    ∃ p', p.getNextLoop (some p.baseLoop) = some (p.turn k, p') ∧ p'.Counts (k + 1) ∧
      p' = { p with next := p'.next } := by
  unfold getNextLoop
  rw [if_pos (by simp [isInLoopThread, hstarted])]
  by_cases hloops : p.loops = []
  · rw [if_pos (by simp [hloops])]
    refine ⟨p, ?_, fun hne => absurd hloops hne, rfl⟩
    simp [turn, hloops]
  · rw [if_neg (by simpa using hloops)]
    have hpos : 0 < p.loops.length := List.length_pos_iff.mpr hloops
    have hnext := hcounts hloops
    have hlt : p.next < p.loops.length := hnext ▸ Nat.mod_lt k hpos
    have hturn : p.loops[p.next]? = some (p.turn k) := by
      rw [turn, ← hnext, List.getElem?_eq_getElem hlt, Option.getD_some]
    rw [hturn]
    refine ⟨_, rfl, fun _ => ?_, rfl⟩
    -- the counter wraps around where the remainder does
    show (if p.loops.length ≤ p.next + 1 then 0 else p.next + 1) = (k + 1) % p.loops.length
    rw [← Nat.mod_add_mod, ← hnext]
    split
    · rename_i hwrap
      have hlast : p.next + 1 = p.loops.length := Nat.le_antisymm hlt hwrap
      rw [hlast, Nat.mod_self]
    · rename_i hwrap
      rw [Nat.mod_eq_of_lt (Nat.lt_of_not_le hwrap)]

end EventLoopThreadPool

/-- The thread that takes the step, if it has a loop. -/
def ServerOp.caller {ℓ : Type} : ServerOp ℓ → Option ℓ
  | .loop l _ => some l
  | .foreign _ _ => none

namespace ServerLoops

variable {ℓ : Type} [DecidableEq ℓ] {cfg : ServerConfig ℓ} {s s' : ServerLoops ℓ} {l : ℓ}
  {task : ServerTask} {rest : List ServerTask}

/-- The members that only `newConnection` changes. -/
def born (s : ServerLoops ℓ) : Nat × (ConnId → ℓ) := (s.nextConnId, s.loopOf)

theorem born_newConnection (io : ℓ) (conn : TcpConnection) :
    (s.newConnection cfg io conn).born =
      (s.nextConnId + 1, Function.update s.loopOf s.nextConnId io) := by
  unfold newConnection
  split_ifs <;> rfl

theorem Change.born (h : Change cfg s l task s') (htask : task ≠ .callback .acceptor .read) :
    s'.born = s.born := by
  cases h with
  | accept io w hacceptor => exact absurd hacceptor htask
  | perform | handleEvent | doPendingFunctors | remove | refuse => rfl

theorem Done.born {e : ServerEvent ℓ} (h : Done cfg s l task e s') (he : e.accepted = none) :
    s'.born = s.born := by
  have hchange := h.change
  cases h with
  | accept => cases he
  | skip => rfl
  | closing | destroying | handleEvent | event | timer | doPendingFunctors | established | remove
  | destroyed | raw | user => exact hchange.born nofun

/-- **Connections are born by `accept` only**, on the thread that has the acceptor before it. -/
theorem step_born {op : ServerOp ℓ} (h : s.step cfg op = some s') :
    (∃ io l, op.accepted = some io ∧ op.caller = some l ∧ s.ActiveOn l .acceptor ∧
      s'.born = (s.nextConnId + 1, Function.update s.loopOf s.nextConnId io)) ∨
    (op.accepted = none ∧ s'.born = s.born) := by
  cases (step_cases h).2.turn with
  | poll | ret => exact .inr ⟨rfl, rfl⟩
  | call op hop l s' h => exact .inr ⟨hop, h.born nofun⟩
  | task l task rest e s' hagenda hdone h =>
    cases he : e.accepted with
    | none => exact .inr ⟨by simp only [ServerOp.accepted, he, Option.map_none], hdone.born he⟩
    | some new =>
      cases hdone with
      | accept io o hlimit =>
        exact .inl ⟨io, l, rfl, rfl, ⟨_, hagenda ▸ List.mem_cons_self, rfl⟩,
          born_newConnection (s := s.take l rest) io _⟩
      | event c cb e hnone | skip channel cb e hnone | raw c f e hnone => cases hnone.symm.trans he
      | closing | destroying | handleEvent | timer | doPendingFunctors | established | remove
      | destroyed | user => cases he

end ServerLoops

/-! ## The server with its pool -/

/-- A server with its pool.  `started` is the counter `started_`. -/
structure PooledServer (ℓ : Type) where
  pool : EventLoopThreadPool ℓ
  started : Nat
  listening : Bool
  server : ServerLoops ℓ
  failed : Bool

inductive PooledOp (ℓ : Type)
  | setThreadNum (n : Nat)
  /-- `TcpServer::start`, on the thread of `caller`. -/
  | start (caller : Option ℓ) (startLoop : Nat → ℓ)
  | server (op : ServerOp ℓ)

/-- The thread that calls `start`. -/
def PooledOp.startedBy {ℓ : Type} : PooledOp ℓ → Option (Option ℓ)
  | .start caller _ => some caller
  | .setThreadNum _ | .server _ => none

namespace PooledServer

variable {ℓ : Type} [DecidableEq ℓ] (cfg : ServerConfig ℓ)

def initial : PooledServer ℓ where
  pool := .initial cfg.base
  started := 0
  listening := false
  server := .initial cfg
  failed := false

/-- `TcpServer::start`.  The pool checks that this is the thread of the base loop, so that
`runInLoop` calls `Acceptor::listen` at once. -/
def start (s : PooledServer ℓ) (caller : Option ℓ) (startLoop : Nat → ℓ) : PooledServer ℓ :=
  if s.started = 0 then
    match s.pool.start caller startLoop with
    | none => { s with started := s.started + 1, failed := true }
    | some pool =>
      if s.listening then { s with started := s.started + 1, pool := pool, failed := true }
      else { s with started := s.started + 1, pool := pool, listening := true }
  else { s with started := s.started + 1 }

/-- The kernel does not report an acceptor that does not listen. -/
def reports (s : PooledServer ℓ) : ServerOp ℓ → Bool
  | .loop _ (.poll batch) => s.listening || batch.all (·.1 ≠ .acceptor)
  | _ => true

/-- A step; `started_` must not overflow. -/
def step (s : PooledServer ℓ) (op : PooledOp ℓ) : Option (PooledServer ℓ) :=
  if s.failed then none
  else
    match op with
    | .setThreadNum n => some { s with pool := s.pool.setThreadNum n }
    | .start caller startLoop =>
      if s.started + 1 < intLimit then some (s.start caller startLoop) else none
    | .server op =>
      if s.reports op then
        (s.server.step cfg op).bind fun server =>
          match op.accepted with
          | none => some { s with server := server }
          -- `newConnection` asks the pool
          | some io =>
            match s.pool.getNextLoop op.caller with
            | none => some { s with failed := true }
            | some (loop, pool) =>
              if io = loop then some { s with pool := pool, server := server } else none
      else none

variable {cfg} {s s' : PooledServer ℓ} {op : PooledOp ℓ}

/-! ## What a step can do -/

inductive Step (cfg : ServerConfig ℓ) (s : PooledServer ℓ) : PooledOp ℓ → PooledServer ℓ → Prop
  | setThreadNum (n : Nat) : Step cfg s (.setThreadNum n) { s with pool := s.pool.setThreadNum n }
  | start (caller : Option ℓ) (startLoop : Nat → ℓ) :
      Step cfg s (.start caller startLoop) (s.start caller startLoop)
  | server (op : ServerOp ℓ) (server : ServerLoops ℓ) (hreports : s.reports op = true)
      (hstep : s.server.step cfg op = some server) (haccepted : op.accepted = none) :
      Step cfg s (.server op) { s with server := server }
  | refused (op : ServerOp ℓ) (server : ServerLoops ℓ)
      (hstep : s.server.step cfg op = some server) {io : ℓ} (haccepted : op.accepted = some io)
      (hpool : s.pool.getNextLoop op.caller = none) :
      Step cfg s (.server op) { s with failed := true }
  | accepted (op : ServerOp ℓ) (server : ServerLoops ℓ) (pool : EventLoopThreadPool ℓ) (io : ℓ)
      (hstep : s.server.step cfg op = some server) (haccepted : op.accepted = some io)
      (hpool : s.pool.getNextLoop op.caller = some (io, pool)) :
      Step cfg s (.server op) { s with pool := pool, server := server }

theorem step_cases (h : s.step cfg op = some s') : s.failed = false ∧ Step cfg s op s' := by
  obtain ⟨hfailed, h⟩ := Option.ite_none_left_eq_some.mp h
  refine ⟨Bool.eq_false_iff.mpr hfailed, ?_⟩
  cases op with
  | setThreadNum n => exact Option.some.inj h ▸ .setThreadNum n
  | start caller startLoop =>
    obtain ⟨-, ⟨⟩⟩ := Option.ite_none_right_eq_some.mp h
    exact .start caller startLoop
  | server op =>
    obtain ⟨hreports, h⟩ := Option.ite_none_right_eq_some.mp h
    obtain ⟨server, hstep, h⟩ := Option.bind_eq_some_iff.mp h
    cases haccepted : op.accepted with
    | none =>
      rw [haccepted] at h
      exact Option.some.inj h ▸ .server op server hreports hstep haccepted
    | some io =>
      rw [haccepted] at h
      cases hpool : s.pool.getNextLoop op.caller with
      | none =>
        rw [hpool] at h
        exact Option.some.inj h ▸ .refused op server hstep haccepted hpool
      | some p =>
        obtain ⟨loop, pool⟩ := p
        rw [hpool] at h
        obtain ⟨hio, hs'⟩ := Option.ite_none_right_eq_some.mp h
        subst hio
        exact Option.some.inj hs' ▸ .accepted op server pool io hstep haccepted hpool

theorem server_start (caller : Option ℓ) (startLoop : Nat → ℓ) :
    (s.start caller startLoop).server = s.server := by
  unfold start
  split
  · cases s.pool.start caller startLoop with
    | none => rfl
    | some pool =>
      dsimp only
      split <;> rfl
  · rfl

/-- Every run is a run of the server with any choice of loops. -/
theorem server_run {ops : List (PooledOp ℓ)}
    (hrun : Machine.run (step cfg) (initial cfg) ops = some s) :
    ∃ sops, Machine.run (ServerLoops.step cfg) (ServerLoops.initial cfg) sops = some s.server := by
  refine Machine.run_invariant (P := fun t : PooledServer ℓ => ∃ sops,
    Machine.run (ServerLoops.step cfg) (ServerLoops.initial cfg) sops = some t.server)
    (fun t _ t' ht h => ?_) hrun ⟨[], rfl⟩
  obtain ⟨sops, hsops⟩ := ht
  have hmore : ∀ op server, t.server.step cfg op = some server →
      ∃ sops, Machine.run (ServerLoops.step cfg) (ServerLoops.initial cfg) sops = some server :=
    fun op server hstep => ⟨sops ++ [op], Machine.run_append_eq_some.mpr
      ⟨t.server, hsops, Machine.run_singleton_eq_some.mpr hstep⟩⟩
  cases (step_cases h).2 with
  | setThreadNum | refused => exact ⟨sops, hsops⟩
  | start caller startLoop => exact ⟨sops, (server_start caller startLoop).symm ▸ hsops⟩
  | server op server _ hstep => exact hmore op server hstep
  | accepted op server _ _ hstep => exact hmore op server hstep

/-! ## Who gets which connection -/

/-- What holds as long as the assertions hold: the acceptor listens once the pool is started, the
base loop alone serves it, and the connections have been given to the loops in turn. -/
structure Assigned (cfg : ServerConfig ℓ) (s : PooledServer ℓ) : Prop where
  base : s.pool.baseLoop = cfg.base
  started : s.started = 0 ↔ s.pool.started = false
  listening : s.listening = s.pool.started
  acceptor : ∀ l, s.server.ActiveOn l .acceptor → l = cfg.base
  born : 0 < s.server.nextConnId
  /-- Before `start` there is no loop and no connection. -/
  fresh : s.pool.started = false → s.pool.loops = [] ∧ s.pool.next = 0 ∧
    s.server.nextConnId = 1 ∧ ∀ l, ¬s.server.ActiveOn l .acceptor
  counts : s.pool.Counts (s.server.nextConnId - 1)
  given : ∀ c, 0 < c → c < s.server.nextConnId → s.server.loopOf c = s.pool.turn (c - 1)

omit [DecidableEq ℓ] in
theorem initial_assigned (cfg : ServerConfig ℓ) : (initial cfg).Assigned cfg where
  base := rfl
  started := iff_of_true rfl rfl
  listening := rfl
  acceptor _ := fun ⟨_, hx, _⟩ => absurd hx List.not_mem_nil
  born := Nat.one_pos
  fresh _ := ⟨rfl, rfl, rfl, fun _ ⟨_, hx, _⟩ => absurd hx List.not_mem_nil⟩
  counts hne := absurd rfl hne
  given _ hpos hlt := absurd hpos (Nat.not_lt.mpr (Nat.le_of_lt_succ hlt))

/-- `start` aborts exactly when the first call is not made on the base loop's thread. -/
theorem Assigned.start (hs : s.Assigned cfg) (hfailed : s.failed = false) (caller : Option ℓ)
    (startLoop : Nat → ℓ) :
    (s.start caller startLoop).started ≠ 0 ∧
    ((s.start caller startLoop).failed = false ↔ (s.started = 0 → caller = some cfg.base)) ∧
      ((s.start caller startLoop).failed = false → (s.start caller startLoop).Assigned cfg) := by
  unfold PooledServer.start
  by_cases hzero : s.started = 0
  · have hnot := hs.started.mp hzero
    obtain ⟨-, hnext, hborn, -⟩ := hs.fresh hnot
    have hlistening : s.listening = false := hs.listening.trans hnot
    rw [if_pos hzero, EventLoopThreadPool.start, if_neg (by simp [hnot])]
    by_cases hcaller : caller = some cfg.base
    · rw [if_pos (by simp [EventLoopThreadPool.isInLoopThread, hcaller, hs.base])]
      simp only [hlistening, Bool.false_eq_true, if_false]
      refine ⟨Nat.succ_ne_zero _, iff_of_true hfailed fun _ => hcaller, fun _ => ?_⟩
      refine ⟨hs.base, by simp, rfl, hs.acceptor, hs.born, by simp, fun _ => ?_,
        fun c hpos hlt => ?_⟩
      · exact hnext.trans (by rw [hborn, Nat.zero_mod])
      · rw [hborn] at hlt
        exact absurd hpos (Nat.not_lt.mpr (Nat.le_of_lt_succ hlt))
    · rw [if_neg (by simp [EventLoopThreadPool.isInLoopThread, hcaller, hs.base])]
      exact ⟨Nat.succ_ne_zero _, iff_of_false Bool.noConfusion fun h => hcaller (h hzero),
        Bool.noConfusion⟩
  · rw [if_neg hzero]
    refine ⟨Nat.succ_ne_zero _, iff_of_true hfailed fun h => absurd h hzero, fun _ => ?_⟩
    exact ⟨hs.base, iff_of_false (Nat.succ_ne_zero _) (mt hs.started.mpr hzero), hs.listening,
      hs.acceptor, hs.born, hs.fresh, hs.counts, hs.given⟩

/-- The kernel reports the acceptor to the base loop only, and not before it listens. -/
theorem Assigned.acceptor_step (hs : s.Assigned cfg) {op : ServerOp ℓ} {server : ServerLoops ℓ}
    (hstep : s.server.step cfg op = some server) {l : ℓ} (hactive : server.ActiveOn l .acceptor) :
    l = cfg.base ∧ (s.reports op = true → s.pool.started = true) := by
  rcases (ServerLoops.step_cases hstep).2.turn.activeOn hactive with
    h | ⟨hbase, batch, rfl, p, hp, hp'⟩
  · refine ⟨hs.acceptor l h, fun _ => ?_⟩
    by_contra hnot
    exact (hs.fresh (Bool.eq_false_iff.mpr hnot)).2.2.2 l h
  · refine ⟨hbase, fun hreports => ?_⟩
    rw [← hs.listening]
    rcases Bool.or_eq_true_iff.mp hreports with hlistening | hall
    · exact hlistening
    · exact absurd hp' (of_decide_eq_true (List.all_eq_true.mp hall p hp))

/-- A step of the server that accepts nothing. -/
theorem Assigned.server (hs : s.Assigned cfg) {op : ServerOp ℓ} {server : ServerLoops ℓ}
    (hreports : s.reports op = true) (hstep : s.server.step cfg op = some server)
    (haccepted : op.accepted = none) : Assigned cfg { s with server := server } := by
  obtain ⟨hnext, hloop⟩ : server.nextConnId = s.server.nextConnId ∧
      server.loopOf = s.server.loopOf := by
    rcases ServerLoops.step_born hstep with ⟨io, l, hio, -⟩ | ⟨-, hborn⟩
    · cases haccepted.symm.trans hio
    · exact ⟨congrArg Prod.fst hborn, congrArg Prod.snd hborn⟩
  refine ⟨hs.base, hs.started, hs.listening, fun l hl => (hs.acceptor_step hstep hl).1, ?_,
    fun hnot => ?_, ?_, ?_⟩
  · exact hnext ▸ hs.born
  · obtain ⟨hloops, hzero, hborn, -⟩ := hs.fresh hnot
    refine ⟨hloops, hzero, hnext.trans hborn, fun l hactive => ?_⟩
    cases hnot.symm.trans ((hs.acceptor_step hstep hactive).2 hreports)
  · exact (congrArg (fun k => s.pool.Counts (k - 1)) hnext).mpr hs.counts
  · intro c hpos hlt
    show server.loopOf c = s.pool.turn (c - 1)
    rw [hloop]
    exact hs.given c hpos (hnext ▸ hlt)

omit [DecidableEq ℓ] in
/-- The pool has been started before the acceptor listens. -/
theorem Assigned.started_of_active (hs : s.Assigned cfg) {l : ℓ}
    (hactive : s.server.ActiveOn l .acceptor) : s.pool.started = true := by
  by_contra hnot
  exact (hs.fresh (Bool.eq_false_iff.mpr hnot)).2.2.2 l hactive

/-- The pool has an answer for the acceptor's callback. -/
theorem Assigned.getNextLoop (hs : s.Assigned cfg) {l : ℓ}
    (hactive : s.server.ActiveOn l .acceptor) :
    ∃ pool, s.pool.getNextLoop (some l) = some (s.pool.turn (s.server.nextConnId - 1), pool) ∧
      pool.Counts (s.server.nextConnId - 1 + 1) ∧ pool = { s.pool with next := pool.next } := by
  rw [hs.acceptor l hactive, ← hs.base]
  exact EventLoopThreadPool.getNextLoop_eq (hs.started_of_active hactive) hs.counts

/-- A connection is accepted, and gets the loop whose turn it is. -/
theorem Assigned.accepted (hs : s.Assigned cfg) {op : ServerOp ℓ} {server : ServerLoops ℓ}
    {pool : EventLoopThreadPool ℓ} {l : ℓ} (hstep : s.server.step cfg op = some server)
    (hactive : s.server.ActiveOn l .acceptor)
    (hborn : server.born = (s.server.nextConnId + 1, Function.update s.server.loopOf
      s.server.nextConnId (s.pool.turn (s.server.nextConnId - 1))))
    (hcounts : pool.Counts (s.server.nextConnId - 1 + 1))
    (hsame : pool = { s.pool with next := pool.next }) :
    Assigned cfg { s with pool := pool, server := server } := by
  have hnext : server.nextConnId = s.server.nextConnId + 1 := congrArg Prod.fst hborn
  have hloop : server.loopOf = Function.update s.server.loopOf s.server.nextConnId
      (s.pool.turn (s.server.nextConnId - 1)) := congrArg Prod.snd hborn
  have hpos := hs.born
  have hturn : ∀ k, pool.turn k = s.pool.turn k := fun k => by rw [hsame]; rfl
  have hsame_started : pool.started = s.pool.started := by rw [hsame]
  refine ⟨?_, ?_, ?_, fun l hl => (hs.acceptor_step hstep hl).1, ?_, fun hnot => ?_, ?_,
    fun c hc hlt => ?_⟩
  · show pool.baseLoop = cfg.base
    rw [hsame]
    exact hs.base
  · show s.started = 0 ↔ pool.started = false
    rw [hsame_started]
    exact hs.started
  · exact hs.listening.trans hsame_started.symm
  · exact hnext ▸ Nat.succ_pos _
  · cases (hsame_started.symm.trans hnot).symm.trans (hs.started_of_active hactive)
  · show pool.Counts (server.nextConnId - 1)
    rw [hnext, Nat.add_sub_cancel, ← Nat.sub_add_cancel hpos]
    exact hcounts
  · show server.loopOf c = pool.turn (c - 1)
    rw [hloop, hturn]
    by_cases hnew : c = s.server.nextConnId
    · rw [hnew, Function.update_self]
    · rw [Function.update_of_ne hnew]
      have hlt : c < s.server.nextConnId + 1 := hnext ▸ hlt
      exact hs.given c hc (Nat.lt_of_le_of_ne (Nat.le_of_lt_succ hlt) hnew)

/-- A step of the server with its pool; no assertion fails in it. -/
theorem Assigned.step_server (hs : s.Assigned cfg) (hfailed : s.failed = false) {op : ServerOp ℓ}
    (h : s.step cfg (.server op) = some s') :
    s'.failed = false ∧ s'.started = s.started ∧ s'.Assigned cfg := by
  cases (step_cases h).2 with
  | server op server hreports hstep haccepted =>
    exact ⟨hfailed, rfl, hs.server hreports hstep haccepted⟩
  | refused op server hstep haccepted hpool =>
    rcases ServerLoops.step_born hstep with ⟨-, l, -, hcaller, hactive, -⟩ | ⟨hno, -⟩
    · obtain ⟨pool, hsome, -⟩ := hs.getNextLoop hactive
      rw [hcaller] at hpool
      cases hpool.symm.trans hsome
    · cases haccepted.symm.trans hno
  | accepted op server pool io hstep haccepted hpool =>
    rcases ServerLoops.step_born hstep with ⟨io', l, hio, hcaller, hactive, hborn⟩ | ⟨hno, -⟩
    · obtain ⟨pool', hsome, hcounts, hsame⟩ := hs.getNextLoop hactive
      rw [hcaller] at hpool
      obtain ⟨hturn, rfl⟩ := Prod.mk.inj (Option.some.inj (hpool.symm.trans hsome))
      rw [← Option.some.inj (haccepted.symm.trans hio), hturn] at hborn
      exact ⟨hfailed, rfl, hs.accepted hstep hactive hborn hcounts hsame⟩
    · cases haccepted.symm.trans hno

/-- The thread that makes the first call of `start`. -/
def firstStart (ops : List (PooledOp ℓ)) : Option (Option ℓ) := ops.findSome? PooledOp.startedBy

/-- What a run leaves: the first call of `start` decides whether an assertion has failed. -/
theorem assigned_of_run {ops : List (PooledOp ℓ)}
    (hrun : Machine.run (step cfg) (initial cfg) ops = some s) :
    (s.failed = false ↔ ∀ caller ∈ firstStart ops, caller = some cfg.base) ∧
      (s.failed = false → s.Assigned cfg ∧ (s.started = 0 ↔ firstStart ops = none)) := by
  induction ops using List.reverseRecOn generalizing s with
  | nil =>
    obtain rfl := Option.some.inj hrun
    exact ⟨iff_of_true rfl nofun, fun _ => ⟨initial_assigned cfg, iff_of_true rfl rfl⟩⟩
  | append_singleton ops op ih =>
    obtain ⟨t, ht, hlast⟩ := Machine.run_append_eq_some.mp hrun
    have hstep := Machine.run_singleton_eq_some.mp hlast
    have hfailed := (step_cases hstep).1
    obtain ⟨hiff, hassigned⟩ := ih ht
    obtain ⟨hs, hzero⟩ := hassigned hfailed
    have hfirst : firstStart (ops ++ [op]) = (firstStart ops).or op.startedBy := by
      rw [firstStart, List.findSome?_append]
      cases h : op.startedBy <;> simp [firstStart, h]
    rw [hfirst]
    cases op with
    | setThreadNum n =>
      obtain rfl := Option.some.inj (Option.ite_none_left_eq_some.mp hstep).2
      rw [PooledOp.startedBy, Option.or_none]
      exact ⟨hiff, fun _ => ⟨⟨hs.base, hs.started, hs.listening, hs.acceptor, hs.born, hs.fresh,
        hs.counts, hs.given⟩, hzero⟩⟩
    | server op =>
      obtain ⟨hfailed', hstarted, hs'⟩ := hs.step_server hfailed hstep
      rw [PooledOp.startedBy, Option.or_none, hstarted]
      exact ⟨iff_of_true hfailed' (hiff.mp hfailed), fun _ => ⟨hs', hzero⟩⟩
    | start caller startLoop =>
      cases (step_cases hstep).2
      obtain ⟨hne, hfails, hs'⟩ := hs.start hfailed caller startLoop
      refine ⟨hfails.trans ?_, fun h => ⟨hs' h, iff_of_false hne (by simp [PooledOp.startedBy])⟩⟩
      rw [hzero]
      cases h : firstStart ops with
      | none => simp [PooledOp.startedBy]
      | some first => simpa [h] using hiff.mp hfailed

/-- How many connections a loop has been given. -/
def served (s : PooledServer ℓ) (l : ℓ) : Nat :=
  Nat.count (fun k => s.server.loopOf (k + 1) = l) (s.server.nextConnId - 1)

/-- The connections of the `i`-th loop are those whose number is `i` modulo the number of
loops. -/
theorem Assigned.served_eq (hs : s.Assigned cfg) (hdistinct : s.pool.loops.Nodup) {i : Nat}
    (hi : i < s.pool.loops.length) :
    s.served s.pool.loops[i] = (s.server.nextConnId - 1) / s.pool.loops.length +
      if i < (s.server.nextConnId - 1) % s.pool.loops.length then 1 else 0 := by
  have hpos : 0 < s.pool.loops.length := Nat.zero_lt_of_lt hi
  have hiff : ∀ k < s.server.nextConnId - 1,
      s.server.loopOf (k + 1) = s.pool.loops[i] ↔ k ≡ i [MOD s.pool.loops.length] := by
    intro k hk
    have hmod : k % s.pool.loops.length < s.pool.loops.length := Nat.mod_lt k hpos
    rw [hs.given (k + 1) (Nat.succ_pos k) (Nat.add_lt_of_lt_sub hk), Nat.add_sub_cancel,
      EventLoopThreadPool.turn, List.getElem?_eq_getElem hmod, Option.getD_some,
      hdistinct.getElem_inj_iff, Nat.ModEq, Nat.mod_eq_of_lt hi]
  have hcongr : s.served s.pool.loops[i] =
      Nat.count (· ≡ i [MOD s.pool.loops.length]) (s.server.nextConnId - 1) :=
    Nat.le_antisymm (Nat.count_mono_left fun k hk => (hiff k hk).mp)
      (Nat.count_mono_left fun k hk => (hiff k hk).mpr)
  rw [hcongr, Nat.count_modEq_card _ hpos, Nat.mod_eq_of_lt hi]

/-- **The loops of the pool share the connections evenly.**  In every run, whatever user code and
the other threads do and however often `start` is called: an assertion of the pool or of `start`
fails exactly when the first call of `start` is not made on the thread of the base loop.  If none
has failed, nor one of the connections, everything that is done for the `c`-th connection, except
to take it out of `connections_`, is done on the loop whose turn it was; and if the threads have
started distinct loops, the numbers of connections of two of them differ by at most one. -/
theorem connections_shared (cfg : ServerConfig ℓ) (ops : List (PooledOp ℓ))
    (hrun : Machine.run (step cfg) (initial cfg) ops = some s) :
    (s.failed = false ↔ ∀ caller ∈ firstStart ops, caller = some cfg.base) ∧
      (s.failed = false → s.server.assertFailed = false → ∀ c i l, 0 < c →
        i ∈ (s.server.view cfg c).items l → i ≠ .remove → l = s.pool.turn (c - 1)) ∧
      (s.failed = false → s.pool.loops.Nodup →
        ∀ l ∈ s.pool.loops, ∀ l' ∈ s.pool.loops, s.served l ≤ s.served l' + 1) := by
  obtain ⟨hiff, hassigned⟩ := assigned_of_run hrun
  refine ⟨hiff, fun hfailed hassert c i l hc hi hne => ?_, fun hfailed hdistinct l hl l' hl' => ?_⟩
  · obtain ⟨sops, hsops⟩ := server_run hrun
    have hsound := ServerLoops.sound_of_run hsops hassert
    have hplace := (hsound.sane c).place l i hi
    rw [if_neg hne] at hplace
    rw [hplace]
    exact (hassigned hfailed).1.given c hc (hsound.lt_of_item hi)
  · have hs := (hassigned hfailed).1
    obtain ⟨i, hi, rfl⟩ := List.mem_iff_getElem.mp hl
    obtain ⟨j, hj, rfl⟩ := List.mem_iff_getElem.mp hl'
    rw [hs.served_eq hdistinct hi, hs.served_eq hdistinct hj]
    split <;> split <;> omega

/-- Two loops, three connections, and a second call of `start`, from elsewhere, that does
nothing. -/
def threeAccepted : List (PooledOp Nat) :=
  let readable : Revents := ⟨true, false, false, false, false, false⟩
  let accept (io : Nat) : List (PooledOp Nat) :=
    [.server (.loop 0 (.poll [(.acceptor, readable)])), .server (.loop 0 .next),
      .server (.loop 0 (.accept (io, ⟨false, false, 1024⟩))), .server (.loop 0 .next)]
  [.setThreadNum 2, .start (some 0) (· + 1), .start none (· + 1)] ++
    accept 1 ++ accept 2 ++ accept 1

theorem connections_shared_threeAccepted :
    ∃ s : PooledServer Nat,
      Machine.run (step ⟨0, [], Nat.zero_le _⟩) (initial ⟨0, [], Nat.zero_le _⟩) threeAccepted =
        some s ∧
      s.pool.loops = [1, 2] ∧ s.server.nextConnId = 4 ∧ s.failed = false ∧
      s.served 1 ≤ s.served 2 + 1 := by
  have hrun : (Machine.run (step ⟨0, [], Nat.zero_le _⟩) (initial ⟨0, [], Nat.zero_le _⟩)
      threeAccepted).map (fun s => (s.pool.loops, s.server.nextConnId)) = some ([1, 2], 4) := by
    rfl
  obtain ⟨s, hs, hview⟩ := Option.map_eq_some_iff.mp hrun
  obtain ⟨hloops, hnext⟩ := Prod.mk.inj hview
  obtain ⟨hiff, -, hshared⟩ := connections_shared ⟨0, [], Nat.zero_le _⟩ threeAccepted hs
  have hfailed : s.failed = false := hiff.mpr fun caller hcaller => (Option.some.inj hcaller).symm
  exact ⟨s, hs, hloops, hnext, hfailed,
    hshared hfailed (hloops ▸ by decide) 1 (hloops ▸ by decide) 2 (hloops ▸ by decide)⟩

end PooledServer
end ReMuduo
