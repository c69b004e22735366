import Mathlib.Logic.Function.Basic
import ReMuduo.Machine
import ReMuduo.TcpConnection

/-! # A connection shared with other threads

`send`, `shutdown` and `forceClose` may be called on any thread.  Off the loop thread
they look at `state_`, which is not protected, and post a functor; the loop thread runs
the posted functors later, in order, between the events of the channel.

Here one established connection is used by its loop thread and by any number of other
threads.  A foreign `send` is one step, its test and its posting.  A foreign `shutdown`
or `forceClose` is two: it tests `state_`, and later it stores `kDisconnecting` and
posts, whatever has happened in between.  Every step of the loop thread (a handler, a
functor, a call made by a callback) is atomic.

`log` keeps what a run does to the socket and to `state_`, and the results are about the
order of its entries: when `kDisconnected` is final, and when no `::write` comes after
the socket was shut down. -/
namespace ReMuduo

/-- The functors that `send`, `shutdown` and `forceClose` post. -/
inductive ConnectionFunctor
  | sendInLoop (data : List UInt8)
  | shutdownInLoop
  | forceCloseInLoop
deriving DecidableEq

/-- The calls that test `state_` first and store it later. -/
inductive ForeignCall
  | shutdown
  | forceClose
deriving DecidableEq

namespace ForeignCall

/-- The test of `state_`. -/
def allowed : ForeignCall → StateE → Bool
  | .shutdown, st => st == .kConnected
  | .forceClose, st => st == .kConnected || st == .kDisconnecting

def functor : ForeignCall → ConnectionFunctor
  | .shutdown => .shutdownInLoop
  | .forceClose => .forceCloseInLoop

end ForeignCall

/-- Who calls `handleClose`: a handler of the channel, or `forceCloseInLoop`. -/
inductive Closer
  | handler
  | forceCloseInLoop
deriving DecidableEq

/-- What a step does: it calls `::write`, `shutdownWrite()` or `handleClose()`, and it
leaves `state_` with a value. -/
inductive ConnectionEvent
  | write
  | shutdownWrite
  | handleClose (closer : Closer)
  | state (st : StateE)
deriving DecidableEq

/-- Among the effects of the methods only `handleClose` calls `closeCallback_`. -/
def Effect.event (closer : Closer) : Effect → Option ConnectionEvent
  | .shutdownWrite => some .shutdownWrite
  | .closeCallback => some (.handleClose closer)
  | _ => none

/-- `sendInLoop` calls `::write` itself. -/
def TcpConnection.writesDirectly (c : TcpConnection) : Bool :=
  decide (c.state ≠ .kDisconnected ∧ c.channel.isWriting = false ∧
    c.outputBuffer.readableBytes = 0)

/-- A connection, the functors posted for it in the order of posting, what each other
thread is about to store, and the log. -/
structure SharedConnection (τ : Type) where
  conn : TcpConnection
  functors : List ConnectionFunctor
  foreign : τ → Option ForeignCall
  log : List ConnectionEvent

/-- The steps of the threads. -/
inductive SharedOp (τ : Type)
  /-- `send(data)` on another thread: its test of `state_` and the post. -/
  | post (data : List UInt8)
  /-- The thread `t` calls `shutdown` or `forceClose` and tests `state_`. -/
  | test (t : τ) (call : ForeignCall)
  /-- The thread `t`, whose test succeeded, stores `kDisconnecting` and posts. -/
  | store (t : τ)
  /-- The loop thread takes the next functor; `w` answers its `::write`. -/
  | functor (w : WriteResult)
  | send (data : List UInt8) (w : WriteResult)
  | shutdown
  | forceClose
  | handleRead (received : SysResult (List UInt8))
  | handleWrite (w : WriteResult)
  | handleClose
  | connectDestroyed

namespace SharedConnection

variable {τ : Type} [DecidableEq τ]

/-- A connection that has just been established, from the values its constructor got. -/
def established (writeComplete highWater : Bool) (mark : Nat) : SharedConnection τ where
  conn := (TcpConnection.initial writeComplete highWater mark).connectEstablished.1
  functors := []
  foreign := fun _ => none
  log := []

/-- What a method logs. -/
def events (closer : Closer) (writes : Bool) (r : TcpConnection × List Effect) :
    List ConnectionEvent :=
  (if writes then [.write] else []) ++ r.2.filterMap (Effect.event closer) ++ [.state r.1.state]

/-- A method has run on the loop thread. -/
def after (s : SharedConnection τ) (closer : Closer) (writes : Bool)
    (r : TcpConnection × List Effect) : SharedConnection τ :=
  { s with conn := r.1, log := s.log ++ events closer writes r }

/-- The loop thread runs a functor. -/
def runFunctor (s : SharedConnection τ) (w : WriteResult) : ConnectionFunctor → SharedConnection τ
  | .sendInLoop data => s.after .handler s.conn.writesDirectly (s.conn.sendInLoop data w)
  | .shutdownInLoop => s.after .handler false (s.conn, s.conn.shutdownInLoop)
  | .forceCloseInLoop => s.after .forceCloseInLoop false s.conn.forceCloseInLoop

def step (s : SharedConnection τ) : SharedOp τ → Option (SharedConnection τ)
  | .post data =>
    if s.conn.state = .kConnected then
      some { s with functors := s.functors ++ [.sendInLoop data] }
    else some s
  | .test t call =>
    match s.foreign t with
    | some _ => none
    | none =>
      if call.allowed s.conn.state then
        some { s with foreign := Function.update s.foreign t (some call) }
      else some s
  | .store t =>
    match s.foreign t with
    | none => none
    | some call =>
      some ({ s with
        foreign := Function.update s.foreign t none
        functors := s.functors ++ [call.functor] } |>.after .handler false
          ({ s.conn with state := .kDisconnecting }, []))
  | .functor w =>
    match s.functors with
    | [] => none
    | f :: rest => some (runFunctor { s with functors := rest } w f)
  | .send data w =>
    some (s.after .handler (decide (s.conn.state = .kConnected) && s.conn.writesDirectly)
      (s.conn.send data w))
  | .shutdown => some (s.after .handler false s.conn.shutdown)
  | .forceClose => some (s.after .forceCloseInLoop false s.conn.forceClose)
  | .handleRead received => some (s.after .handler false (s.conn.handleRead received))
  | .handleWrite w => some (s.after .handler s.conn.channel.isWriting (s.conn.handleWrite w))
  | .handleClose => some (s.after .handler false s.conn.handleClose)
  | .connectDestroyed => some (s.after .handler false s.conn.connectDestroyed)

end SharedConnection

/-! ## What the methods do to `state_` -/

/-- On the loop thread `state_` stays, becomes `kDisconnected`, or goes from `kConnected` to
`kDisconnecting`. -/
def StateE.Leads (a b : StateE) : Prop :=
  b = a ∨ b = .kDisconnected ∨ (a = .kConnected ∧ b = .kDisconnecting)

theorem StateE.Leads.disconnected {a b : StateE} (h : a.Leads b) (ha : a = .kDisconnected) :
    b = .kDisconnected := by
  rcases h with h | h | ⟨h, -⟩
  · exact h.trans ha
  · exact h
  · cases ha.symm.trans h

theorem StateE.Leads.connected {a b : StateE} (h : a.Leads b) (hb : b = .kConnected) :
    a = .kConnected := by
  rcases h with h | h | ⟨h, -⟩
  · exact h.symm.trans hb
  · cases h.symm.trans hb
  · exact h

namespace TcpConnection

/-- What all methods on the loop thread have in common: where they take `state_`, and that
they call `closeCallback_` only in `handleClose`. -/
structure Method (c : TcpConnection) (r : TcpConnection × List Effect) : Prop where
  leads : c.state.Leads r.1.state
  closes : Effect.closeCallback ∉ r.2 ∨ (r.2 = c.handleClose.2 ∧ r.1.state = .kDisconnected)

/-- What the methods have in common that a handler, a functor or a call runs: they close the
connection by `handleClose`, or they leave `state_` alone up to a step from `kConnected` to
`kDisconnecting`. -/
structure Handler (c : TcpConnection) (r : TcpConnection × List Effect) : Prop where
  quiet : Effect.closeCallback ∉ r.2 →
    r.1.state = c.state ∨ c.state = .kConnected ∧ r.1.state = .kDisconnecting
  closes : Effect.closeCallback ∈ r.2 → r.2 = c.handleClose.2 ∧ r.1.state = .kDisconnected

variable (c : TcpConnection)

theorem Handler.method {c : TcpConnection} {r : TcpConnection × List Effect} (h : c.Handler r) :
    c.Method r := by
  by_cases hclose : Effect.closeCallback ∈ r.2
  · have hdown := h.closes hclose
    exact ⟨Or.inr (Or.inl hdown.2), Or.inr hdown⟩
  · exact ⟨(h.quiet hclose).imp_right Or.inr, Or.inl hclose⟩

/-- A method that neither touches `state_` nor closes. -/
theorem Handler.of_state {c : TcpConnection} {r : TcpConnection × List Effect}
    (hstate : r.1.state = c.state) (hclose : Effect.closeCallback ∉ r.2) : c.Handler r :=
  ⟨fun _ => Or.inl hstate, fun h => absurd h hclose⟩

theorem handleClose_handler : c.Handler c.handleClose :=
  ⟨fun h => absurd (by simp [handleClose]) h, fun _ => ⟨rfl, rfl⟩⟩

theorem sendInLoop_handler (data : List UInt8) (w : WriteResult) :
    c.Handler (c.sendInLoop data w) := by
  refine .of_state (state_sendInLoop c data w) (fun h => ?_)
  obtain ⟨f, hf⟩ := sendInLoop_effects h
  cases hf

theorem send_handler (data : List UInt8) (w : WriteResult) : c.Handler (c.send data w) := by
  unfold send
  split
  · exact sendInLoop_handler c data w
  · exact .of_state rfl (by simp)

theorem closeCallback_notMem_shutdownInLoop : Effect.closeCallback ∉ c.shutdownInLoop := by
  unfold shutdownInLoop
  split <;> simp

theorem shutdownInLoop_handler : c.Handler (c, c.shutdownInLoop) :=
  .of_state rfl c.closeCallback_notMem_shutdownInLoop

theorem shutdown_handler : c.Handler c.shutdown := by
  unfold shutdown
  split
  · rename_i hstate
    exact ⟨fun _ => Or.inr ⟨hstate, rfl⟩,
      fun h => absurd h (closeCallback_notMem_shutdownInLoop _)⟩
  · exact .of_state rfl (by simp)

theorem forceCloseInLoop_handler : c.Handler c.forceCloseInLoop := by
  unfold forceCloseInLoop
  split
  · exact handleClose_handler c
  · exact .of_state rfl (by simp)

theorem handleRead_handler (received : SysResult (List UInt8)) :
    c.Handler (c.handleRead received) := by
  unfold handleRead
  split
  · exact handleClose_handler c
  · exact .of_state rfl (by simp)
  · exact .of_state rfl (by simp)

theorem handleWrite_handler (w : WriteResult) : c.Handler (c.handleWrite w) := by
  unfold handleWrite
  split
  · split
    · dsimp only
      split
      · refine .of_state rfl (fun h => ?_)
        rcases List.mem_append.mp h with h | h
        · split at h <;> simp at h
        · split at h
          · exact closeCallback_notMem_shutdownInLoop _ h
          · cases h
      · exact .of_state rfl (by simp)
    · split
      · exact handleClose_handler c
      · exact .of_state rfl (by simp)
  · exact .of_state rfl (by simp)

theorem connectDestroyed_method : c.Method c.connectDestroyed := by
  unfold connectDestroyed
  split
  · exact ⟨Or.inr (Or.inl rfl), Or.inl (by simp)⟩
  · exact ⟨Or.inl rfl, Or.inl (by simp)⟩

/-- `forceCloseInLoop` leaves a connection alone that is disconnected. -/
theorem forceCloseInLoop_disconnected (h : c.state = .kDisconnected) :
    c.forceCloseInLoop = (c, []) := by
  simp [forceCloseInLoop, h]

end TcpConnection

namespace SharedConnection

variable {τ : Type} [DecidableEq τ] {s s' : SharedConnection τ} {op : SharedOp τ}

/-- **What a step does to `state_` and to the log.**  It leaves both alone, or a thread
stores `kDisconnecting`, or a method runs on the loop thread; `forceCloseInLoop` then
does nothing to a connection that is disconnected. -/
inductive Logged (s : SharedConnection τ) : SharedOp τ → SharedConnection τ → Prop
  | quiet {op : SharedOp τ} {s' : SharedConnection τ} : (∀ t, op ≠ .store t) →
      s'.conn = s.conn → s'.log = s.log → Logged s op s'
  | stored {t : τ} {s' : SharedConnection τ} : s'.conn.state = .kDisconnecting →
      s'.log = s.log ++ [.state .kDisconnecting] → Logged s (.store t) s'
  | method {op : SharedOp τ} {s' : SharedConnection τ} {closer : Closer} {writes : Bool}
      {r : TcpConnection × List Effect} : (∀ t, op ≠ .store t) → s'.conn = r.1 →
      s'.log = s.log ++ events closer writes r → s.conn.Method r →
      (closer = .forceCloseInLoop → s.conn.state = .kDisconnected → r.2 = []) → Logged s op s'

theorem step_logged (h : s.step op = some s') : s.Logged op s' := by
  cases op with
  | post data =>
    simp only [step] at h
    split at h <;> cases h <;> exact .quiet nofun rfl rfl
  | test t call =>
    simp only [step] at h
    split at h
    · cases h
    · split at h <;> cases h <;> exact .quiet nofun rfl rfl
  | store t =>
    simp only [step] at h
    split at h
    · cases h
    · cases h
      exact .stored rfl rfl
  | functor w =>
    simp only [step] at h
    split at h
    · cases h
    · rename_i f rest hf
      cases h
      cases f with
      | sendInLoop data =>
        exact .method nofun rfl rfl (TcpConnection.sendInLoop_handler _ _ _).method nofun
      | shutdownInLoop =>
        exact .method nofun rfl rfl (TcpConnection.shutdownInLoop_handler _).method nofun
      | forceCloseInLoop =>
        refine .method nofun rfl rfl (TcpConnection.forceCloseInLoop_handler _).method
          (fun _ hstate => ?_)
        exact congrArg Prod.snd (TcpConnection.forceCloseInLoop_disconnected _ hstate)
  | send data w =>
    cases h
    exact .method nofun rfl rfl (TcpConnection.send_handler _ _ _).method nofun
  | shutdown =>
    cases h
    exact .method nofun rfl rfl (TcpConnection.shutdown_handler _).method nofun
  | forceClose =>
    cases h
    refine .method nofun rfl rfl ?_ (fun _ hstate => ?_)
    · rw [TcpConnection.forceClose_eq]
      exact (TcpConnection.forceCloseInLoop_handler _).method
    · rw [TcpConnection.forceClose_eq, TcpConnection.forceCloseInLoop_disconnected _ hstate]
  | handleRead received =>
    cases h
    exact .method nofun rfl rfl (TcpConnection.handleRead_handler _ _).method nofun
  | handleWrite w =>
    cases h
    exact .method nofun rfl rfl (TcpConnection.handleWrite_handler _ _).method nofun
  | handleClose =>
    cases h
    exact .method nofun rfl rfl (TcpConnection.handleClose_handler _).method nofun
  | connectDestroyed =>
    cases h
    exact .method nofun rfl rfl (TcpConnection.connectDestroyed_method _) nofun

/-! ## When `kDisconnected` is final -/

/-- Once `state_` is `kDisconnected` no step leaves it with another value. -/
def Absorbing (log : List ConnectionEvent) : Prop :=
  log.Pairwise (fun e f => e = .state .kDisconnected → ∀ st, f = .state st → st = .kDisconnected)

/-- `forceCloseInLoop` does not call `handleClose` after `handleClose` has run. -/
def NotForcedAgain (log : List ConnectionEvent) : Prop :=
  log.Pairwise (fun e f => ∀ closer, e = .handleClose closer → f ≠ .handleClose .forceCloseInLoop)

/-- The thread's store of `kDisconnecting` comes while `state_` is not `kDisconnected`. -/
def StoresInTime (s : SharedConnection τ) : SharedOp τ → Prop
  | .store _ => s.conn.state ≠ .kDisconnected
  | _ => True

instance decidableStoresInTime (s : SharedConnection τ) : ∀ op, Decidable (s.StoresInTime op)
  | .store _ => inferInstanceAs (Decidable (s.conn.state ≠ .kDisconnected))
  | .post _ | .test _ _ | .functor _ | .send _ _ | .shutdown | .forceClose | .handleRead _
  | .handleWrite _ | .handleClose | .connectDestroyed => isTrue trivial

/-- The log tells the state: it has `kDisconnected` if the state is, or once the connection
was closed, and if nothing came after that the state still is. -/
structure Recorded (s : SharedConnection τ) : Prop where
  now : s.conn.state = .kDisconnected → ConnectionEvent.state .kDisconnected ∈ s.log
  closed : ∀ closer, ConnectionEvent.handleClose closer ∈ s.log →
    ConnectionEvent.state .kDisconnected ∈ s.log
  last : Absorbing s.log → ConnectionEvent.state .kDisconnected ∈ s.log →
    s.conn.state = .kDisconnected

/-- The entries a method makes for its effects are not about the state. -/
theorem state_notMem_filterMap (closer : Closer) (st : StateE) (effects : List Effect) :
    ConnectionEvent.state st ∉ effects.filterMap (Effect.event closer) := by
  intro h
  obtain ⟨e, -, he⟩ := List.mem_filterMap.mp h
  cases e <;> cases he

/-- The one entry about the state that a method makes. -/
theorem state_mem_events {closer : Closer} {writes : Bool} {r : TcpConnection × List Effect}
    {st : StateE} (h : ConnectionEvent.state st ∈ events closer writes r) : st = r.1.state := by
  rcases List.mem_append.mp h with h | h
  · rcases List.mem_append.mp h with h | h
    · split at h <;> simp at h
    · exact absurd h (state_notMem_filterMap _ _ _)
  · simpa using h

theorem handleClose_mem_events {closer closer' : Closer} {writes : Bool}
    {r : TcpConnection × List Effect}
    (h : ConnectionEvent.handleClose closer' ∈ events closer writes r) :
    closer' = closer ∧ Effect.closeCallback ∈ r.2 := by
  rcases List.mem_append.mp h with h | h
  · rcases List.mem_append.mp h with h | h
    · split at h <;> simp at h
    · obtain ⟨e, hmem, he⟩ := List.mem_filterMap.mp h
      cases e <;> cases he
      exact ⟨rfl, hmem⟩
  · simp at h

omit [DecidableEq τ] in
theorem established_recorded (writeComplete highWater : Bool) (mark : Nat) :
    (established writeComplete highWater mark : SharedConnection τ).Recorded :=
  ⟨nofun, nofun, nofun⟩

/-- Entries about the state that follow one another in the log. -/
theorem Absorbing.append {log es : List ConnectionEvent} (h : Absorbing (log ++ es))
    (hmem : ConnectionEvent.state .kDisconnected ∈ log) {st : StateE}
    (hst : ConnectionEvent.state st ∈ es) : st = .kDisconnected :=
  (List.pairwise_append.mp h).2.2 _ hmem _ hst rfl st rfl

theorem step_recorded (hs : s.Recorded) (h : s.step op = some s') : s'.Recorded := by
  cases step_logged h with
  | quiet _ hconn hlog =>
    exact ⟨by rw [hconn, hlog]; exact hs.now, by rw [hlog]; exact hs.closed,
      by rw [hconn, hlog]; exact hs.last⟩
  | stored hstate hlog =>
    refine ⟨?_, ?_, ?_⟩
    · rw [hstate]
      nofun
    · intro closer hmem
      rw [hlog] at hmem ⊢
      exact List.mem_append_left _ (hs.closed closer (by simpa using hmem))
    · intro habs hmem
      rw [hlog] at habs hmem
      have hmem : ConnectionEvent.state .kDisconnected ∈ s.log := by simpa using hmem
      exact StateE.noConfusion (habs.append hmem (List.mem_singleton.mpr rfl))
  | @method _ _ closer writes r _ hconn hlog hmethod _ =>
    have hself : ConnectionEvent.state r.1.state ∈ events closer writes r :=
      List.mem_append_right _ (List.mem_singleton.mpr rfl)
    refine ⟨?_, ?_, ?_⟩
    · intro hstate
      rw [hconn] at hstate
      rw [hlog, ← hstate]
      exact List.mem_append_right _ hself
    · intro c hmem
      rw [hlog] at hmem ⊢
      rcases List.mem_append.mp hmem with hmem | hmem
      · exact List.mem_append_left _ (hs.closed c hmem)
      · rcases hmethod.closes with hno | ⟨-, hstate⟩
        · exact absurd (handleClose_mem_events hmem).2 hno
        · rw [← hstate]
          exact List.mem_append_right _ hself
    · intro habs hmem
      rw [hlog] at habs hmem
      rw [hconn]
      rcases List.mem_append.mp hmem with hmem | hmem
      · exact habs.append hmem hself
      · exact (state_mem_events hmem).symm

/-- The connection stays closed, for every thread, and is not closed twice by a functor. -/
def StaysClosed (s : SharedConnection τ) : Prop := Absorbing s.log ∧ NotForcedAgain s.log

/-- The entries of one method contain at most one `handleClose`. -/
theorem notForcedAgain_events {c : TcpConnection} {r : TcpConnection × List Effect}
    (hr : c.Method r) (closer : Closer) (writes : Bool) :
    NotForcedAgain (events closer writes r) := by
  rcases hr.closes with hno | ⟨heq, -⟩
  · refine List.pairwise_of_forall_mem_list fun e he f _ c hc => ?_
    rw [hc] at he
    exact absurd (handleClose_mem_events he).2 hno
  · have hone : c.handleClose.2.filterMap (Effect.event closer) = [.handleClose closer] := rfl
    rw [events, heq, hone]
    cases writes <;> simp [NotForcedAgain]

omit [DecidableEq τ] in
/-- A method on the loop thread never reopens a connection. -/
theorem StaysClosed.method (hs : s.StaysClosed) (hrec : s.Recorded)
    {r : TcpConnection × List Effect} (hr : s.conn.Method r) {closer : Closer}
    (hforce : closer = .forceCloseInLoop → s.conn.state = .kDisconnected → r.2 = [])
    (writes : Bool) (hlog : s'.log = s.log ++ events closer writes r) : s'.StaysClosed := by
  rw [StaysClosed, hlog]
  refine ⟨List.pairwise_append.mpr ⟨hs.1, ?_, ?_⟩,
    List.pairwise_append.mpr ⟨hs.2, notForcedAgain_events hr closer writes, ?_⟩⟩
  · refine List.pairwise_of_forall_mem_list ?_
    rintro e he f hf rfl st rfl
    exact (state_mem_events hf).trans (state_mem_events he).symm
  · rintro e he f hf rfl st rfl
    exact (state_mem_events hf).trans (hr.leads.disconnected (hrec.last hs.1 he))
  · rintro e he f hf c rfl rfl
    obtain ⟨rfl, hmem⟩ := handleClose_mem_events hf
    rw [hforce rfl (hrec.last hs.1 (hrec.closed c he))] at hmem
    cases hmem

/-- One step keeps a closed connection closed exactly when it does not store
`kDisconnecting` too late. -/
theorem step_staysClosed_iff (hrec : s.Recorded) (hs : s.StaysClosed)
    (h : s.step op = some s') : s'.StaysClosed ↔ s.StoresInTime op := by
  have htrue : (∀ t, op ≠ .store t) → s.StoresInTime op := by
    intro hop
    cases op with
    | store t => exact absurd rfl (hop t)
    | _ => trivial
  cases step_logged h with
  | quiet hop hconn hlog =>
    refine iff_of_true ?_ (htrue hop)
    rw [StaysClosed, hlog]
    exact hs
  | method hop hconn hlog hr hforce =>
    exact iff_of_true (hs.method hrec hr hforce _ hlog) (htrue hop)
  | stored hstate hlog =>
    rw [StaysClosed, hlog]
    constructor
    · rintro ⟨habs, -⟩ hclosed
      exact StateE.noConfusion (habs.append (hrec.now hclosed) (List.mem_singleton.mpr rfl))
    · intro hopen
      refine ⟨List.pairwise_append.mpr ⟨hs.1, List.pairwise_singleton _ _, ?_⟩,
        List.pairwise_append.mpr ⟨hs.2, List.pairwise_singleton _ _, ?_⟩⟩
      · rintro e he f - rfl
        exact absurd (hrec.last hs.1 he) hopen
      · rintro e - f hf c -
        rw [List.mem_singleton.mp hf]
        nofun

/-! ## When a store comes in time -/

/-- Between a thread's test of `state_` and the store that follows it, the connection is not
closed. -/
def OpenBetween (s₀ : SharedConnection τ) (ops : List (SharedOp τ)) : Prop :=
  ∀ pre t call mid post u, ops = pre ++ .test t call :: (mid ++ .store t :: post) →
    (∀ op ∈ mid, op ≠ .store t ∧ ∀ call', op ≠ .test t call') →
    Machine.run step s₀ (pre ++ [.test t call]) = some u →
    Machine.Throughout step (fun v => v.conn.state ≠ .kDisconnected) u mid

/-- A connection that is closed stays so up to the next store. -/
theorem step_disconnected (hs : s.conn.state = .kDisconnected) (hop : ∀ t, op ≠ .store t)
    (h : s.step op = some s') : s'.conn.state = .kDisconnected := by
  cases step_logged h with
  | quiet _ hconn => rw [hconn, hs]
  | stored => exact absurd rfl (hop _)
  | method _ hconn _ hr => rw [hconn, hr.leads.disconnected hs]

/-- As long as all stores come in time, there are none to a connection that is closed. -/
theorem store_notMem_of_disconnected {ops : List (SharedOp τ)}
    (hrun : Machine.run step s ops = some s') (hG : Machine.Along step StoresInTime s ops)
    (hs : s.conn.state = .kDisconnected) (t : τ) : .store t ∉ ops := by
  induction ops generalizing s with
  | nil => exact List.not_mem_nil
  | cons op ops ih =>
    obtain ⟨u, hu, hrest⟩ := Machine.run_cons_eq_some.mp hrun
    obtain ⟨hop, hG⟩ := (Machine.along_cons_of_some hu).mp hG
    have hno : ∀ t, op ≠ .store t := by
      rintro t rfl
      exact hop hs
    intro hmem
    rcases List.mem_cons.mp hmem with heq | hmem
    · exact hno t heq.symm
    · exact ih hrest hG (step_disconnected hs hno hu) hmem

theorem open_until_store {t : τ} {mid post : List (SharedOp τ)}
    (hrun : Machine.run step s (mid ++ .store t :: post) = some s')
    (hG : Machine.Along step StoresInTime s (mid ++ .store t :: post)) :
    Machine.Throughout step (fun v => v.conn.state ≠ .kDisconnected) s mid := by
  have hopen : s.conn.state ≠ .kDisconnected := fun hclosed =>
    store_notMem_of_disconnected hrun hG hclosed t (by simp)
  induction mid generalizing s with
  | nil => exact hopen
  | cons op mid ih =>
    obtain ⟨u, hu, hrest⟩ := Machine.run_cons_eq_some.mp hrun
    have hG' := ((Machine.along_cons_of_some hu).mp hG).2
    refine (Machine.throughout_cons_of_some hu).mpr ⟨hopen, ih hrest hG' fun hclosed => ?_⟩
    exact store_notMem_of_disconnected hrest hG' hclosed t (by simp)

/-- Only the thread's own steps change what it is about to store. -/
theorem foreign_step (h : s.step op = some s') (t : τ) :
    (op = .store t ∧ s'.foreign t = none) ∨
      (∃ call, op = .test t call ∧ (s'.foreign t = some call ∨ s'.foreign t = none)) ∨
      (op ≠ .store t ∧ ∀ call, op ≠ .test t call) ∧ s'.foreign t = s.foreign t := by
  cases op with
  | post data =>
    simp only [step] at h
    split at h <;> cases h <;> exact .inr (.inr ⟨⟨nofun, nofun⟩, rfl⟩)
  | test u call =>
    simp only [step] at h
    split at h
    · cases h
    · rename_i hnone
      by_cases hu : t = u
      · subst hu
        refine .inr (.inl ⟨call, rfl, ?_⟩)
        split at h
        · cases h
          exact .inl (Function.update_self ..)
        · cases h
          exact .inr hnone
      · refine .inr (.inr ⟨⟨nofun, fun call' heq => ?_⟩, ?_⟩)
        · cases heq
          exact hu rfl
        · split at h
          · cases h
            exact Function.update_of_ne hu ..
          · cases h
            rfl
  | store u =>
    simp only [step] at h
    split at h
    · cases h
    · cases h
      by_cases hu : t = u
      · subst hu
        exact .inl ⟨rfl, Function.update_self ..⟩
      · refine .inr (.inr ⟨⟨fun heq => ?_, nofun⟩, Function.update_of_ne hu ..⟩)
        cases heq
        exact hu rfl
  | functor w =>
    simp only [step] at h
    split at h
    · cases h
    · rename_i f rest hf
      cases h
      cases f <;> exact .inr (.inr ⟨⟨nofun, nofun⟩, rfl⟩)
  | send | shutdown | forceClose | handleRead | handleWrite | handleClose | connectDestroyed =>
    cases h
    exact .inr (.inr ⟨⟨nofun, nofun⟩, rfl⟩)

/-- What a thread is about to store was allowed by its last test. -/
theorem exists_test {ops : List (SharedOp τ)} {s₀ : SharedConnection τ} {t : τ}
    {call : ForeignCall} (hnone : s₀.foreign t = none)
    (hrun : Machine.run step s₀ ops = some s) (ht : s.foreign t = some call) :
    ∃ pre mid, ops = pre ++ .test t call :: mid ∧
      ∀ op ∈ mid, op ≠ .store t ∧ ∀ call', op ≠ .test t call' := by
  have hcause := Machine.exists_last_cause (P := fun s => s.foreign t = some call)
    (C := (· = .test t call)) (N := fun op => op ≠ .store t ∧ ∀ call', op ≠ .test t call')
    (fun u op v h hv => ?_) hrun ht
  · obtain ⟨pre, op, mid, rfl, rfl, hmid⟩ := hcause.resolve_right fun hstart => by
      cases hnone.symm.trans hstart.2
    exact ⟨pre, mid, rfl, hmid⟩
  · rcases foreign_step h t with ⟨-, hnone'⟩ | ⟨call', rfl, hset | hnone'⟩ | ⟨hother, hsame⟩
    · cases hnone'.symm.trans hv
    · obtain rfl := Option.some.inj (hset.symm.trans hv)
      exact .inl rfl
    · cases hnone'.symm.trans hv
    · exact .inr ⟨hother, hsame.symm.trans hv⟩

/-- The stores come in time exactly when no thread is overtaken between its test and its
store. -/
theorem storesInTime_iff_openBetween {ops : List (SharedOp τ)} {s₀ : SharedConnection τ}
    (hnone : ∀ t, s₀.foreign t = none) (hrun : Machine.run step s₀ ops = some s) :
    Machine.Along step StoresInTime s₀ ops ↔ OpenBetween s₀ ops := by
  constructor
  · rintro hG pre t call mid post u rfl - hu
    rw [← List.singleton_append, ← List.append_assoc] at hrun hG
    obtain ⟨v, hv, hrest⟩ := Machine.run_append_eq_some.mp hrun
    obtain rfl := Option.some.inj (hv.symm.trans hu)
    exact open_until_store hrest ((Machine.along_append hv).mp hG).2
  · intro hopen
    by_contra hG
    obtain ⟨pre, op, post, u, v, rfl, hpre, -, hlate, hstep, -⟩ :=
      Machine.exists_first_violation hrun hG
    cases op with
    | store t =>
      cases hforeign : u.foreign t with
      | none => simp [step, hforeign] at hstep
      | some call =>
        obtain ⟨before, mid, rfl, hmid⟩ := exists_test (hnone t) hpre hforeign
        rw [← List.singleton_append, ← List.append_assoc] at hpre
        obtain ⟨w, hw, hrest⟩ := Machine.run_append_eq_some.mp hpre
        have hbetween := hopen before t call mid post w (by simp) hmid hw
        have hstate : u.conn.state ≠ .kDisconnected :=
          Machine.run_invariant_throughout (Q := fun v => v.conn.state ≠ .kDisconnected)
            (fun _ _ _ _ _ hP _ => hP) hrest hbetween hbetween.first
        exact hlate hstate
    | post | test | functor | send | shutdown | forceClose | handleRead | handleWrite
    | handleClose | connectDestroyed => exact hlate trivial

/-- **When `kDisconnected` is final.**  For every interleaving of the threads: in all states
of the run, `state_` has not changed after it became `kDisconnected` and
`forceCloseInLoop` has not called `handleClose` after `handleClose` had run, exactly if
no other thread stores `kDisconnecting` while `state_` is `kDisconnected`.  The test
before the store does not exclude this: the loop thread may close the connection in
between, and the stores come in time exactly when it never does. -/
theorem staysClosed_iff_storesInTime {writeComplete highWater : Bool} {mark : Nat}
    {ops : List (SharedOp τ)}
    (hrun : Machine.run step (established writeComplete highWater mark) ops = some s) :
    (Machine.Throughout step StaysClosed (established writeComplete highWater mark) ops ↔
        Machine.Along step StoresInTime (established writeComplete highWater mark) ops) ∧
      (Machine.Along step StoresInTime (established writeComplete highWater mark) ops ↔
        OpenBetween (established writeComplete highWater mark) ops) := by
  refine ⟨?_, storesInTime_iff_openBetween (fun _ => rfl) hrun⟩
  exact Machine.throughout_iff_along (Q := StaysClosed)
    (fun _ _ _ _ hrec h => step_recorded hrec h)
    (fun _ _ _ _ hrec hs hG h => (step_staysClosed_iff hrec hs h).mpr hG)
    (fun _ _ _ _ hrec hs h => (step_staysClosed_iff hrec hs h).mp)
    (fun _ h => h) hrun (established_recorded _ _ _) ⟨List.Pairwise.nil, List.Pairwise.nil⟩

/-- Another thread tests `state_` in `forceClose`, the loop thread closes the connection,
and the other thread stores and posts. -/
def closedInBetween : List (SharedOp Unit) :=
  [.test () .forceClose, .handleRead (.ok []), .store (), .functor ⟨none, 0⟩]

/-- The closed connection is disconnecting again, and the functor closes it once more. -/
theorem closed_twice_by_functor :
    (Machine.run step (established false false 64) closedInBetween).map SharedConnection.log =
      some [.handleClose .handler, .state .kDisconnected, .state .kDisconnecting,
        .handleClose .forceCloseInLoop, .state .kDisconnected] := by
  decide +kernel

theorem staysClosed_iff_storesInTime_closedAfter :
    Machine.Throughout step StaysClosed (established false false 64 : SharedConnection Unit)
      [.test () .forceClose, .store (), .functor ⟨none, 0⟩, .handleClose] := by
  obtain ⟨s, hs⟩ : ∃ s, Machine.run step (established false false 64 : SharedConnection Unit)
      [.test () .forceClose, .store (), .functor ⟨none, 0⟩, .handleClose] = some s := ⟨_, rfl⟩
  exact (staysClosed_iff_storesInTime hs).1.mpr (by decide +kernel)

end SharedConnection
end ReMuduo
