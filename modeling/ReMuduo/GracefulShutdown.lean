import ReMuduo.FinOrder
import ReMuduo.MessageOrder

/-! # Shutting a connection down gracefully

`shutdown()` does not throw away what is still to be written: with data in the output buffer
`shutdownInLoop` does nothing, and it is `handleWrite` that shuts the socket down once the
buffer has been drained, because it finds the state `kDisconnecting`.  The request is
remembered nowhere else, so it could be forgotten between the two, on a path that drains the
buffer without a look at the state, or stops waiting for writability without draining it.

This module shows that it is not forgotten (`Polite`), and that the shutdown completes: as
often as the socket turns writable, one byte at least is gone. -/
namespace ReMuduo
namespace TcpConnection

variable (c : TcpConnection)

/-- The channel waits for writability as long as something is buffered. -/
def Waits : Prop := c.channel.isWriting = true ↔ c.outputBuffer.contents ≠ []

/-- What the methods have in common that do not close the connection: they keep the channel
waiting for what is buffered, and if they stop waiting, or begin to disconnect, they see to
the shutdown. -/
structure Graceful (r : TcpConnection × List Effect) : Prop where
  waits : c.Waits → r.1.state ≠ .kDisconnected → r.1.Waits
  shuts : r.1.state = .kDisconnecting → c.state ≠ .kDisconnecting ∨ c.channel.isWriting = true →
    r.1.channel.isWriting = true ∨ Effect.shutdownWrite ∈ r.2

theorem Graceful.of_closed {r : TcpConnection × List Effect} (h : r.1.state = .kDisconnected) :
    c.Graceful r :=
  ⟨fun _ hno => absurd h hno, fun hr => by rw [h] at hr; cases hr⟩

/-- A method that leaves the state, the channel and the output buffer alone. -/
theorem Graceful.of_same {r : TcpConnection × List Effect} (hstate : r.1.state = c.state)
    (hchannel : r.1.channel = c.channel) (hbuffer : r.1.outputBuffer = c.outputBuffer) :
    c.Graceful r := by
  refine ⟨fun hc _ => ?_, fun hr hold => Or.inl ?_⟩
  · rw [Waits, hchannel, hbuffer]
    exact hc
  · rw [hchannel]
    exact hold.resolve_left fun hno => hno (hstate.symm.trans hr)

/-- What is buffered is waited for. -/
theorem sendRemaining_graceful (rest : List UInt8) : c.Graceful (c.sendRemaining rest) := by
  unfold sendRemaining
  split
  · rename_i hrest
    have hwriting : (if c.channel.isWriting = true then c.channel
        else c.channel.enableWriting).isWriting = true := by
      split
      · assumption
      · exact Channel.isWriting_enableWriting _
    refine ⟨fun _ _ => iff_of_true hwriting ?_, fun _ _ => Or.inl hwriting⟩
    show (c.outputBuffer.append rest).contents ≠ []
    rw [ByteBuffer.contents_append]
    exact List.append_ne_nil_of_right_ne_nil _ (List.ne_nil_of_length_pos hrest)
  · exact .of_same c rfl rfl rfl

theorem sendInLoop_graceful (data : List UInt8) (w : WriteResult) :
    c.Graceful (c.sendInLoop data w) := by
  unfold sendInLoop
  split
  · exact .of_same c rfl rfl rfl
  · split
    · split
      · rename_i n _
        have h := sendRemaining_graceful { c with written := c.written ++ data.take n }
          (data.drop n)
        refine ⟨h.waits, fun hr hold => ?_⟩
        exact (h.shuts hr hold).imp_right fun hmem => List.mem_append_right _ hmem
      · split
        · exact .of_same c rfl rfl rfl
        · exact sendRemaining_graceful c data
    · exact sendRemaining_graceful c data

theorem send_graceful (data : List UInt8) (w : WriteResult) : c.Graceful (c.send data w) := by
  unfold send
  split
  · exact sendInLoop_graceful c data w
  · exact .of_same c rfl rfl rfl

/-- `shutdownInLoop` shuts the socket down unless there is something to wait for. -/
theorem shutdownInLoop_or :
    c.channel.isWriting = true ∨ Effect.shutdownWrite ∈ c.shutdownInLoop := by
  unfold shutdownInLoop
  split
  · rename_i hwriting
    exact Or.inl hwriting
  · exact Or.inr (List.mem_singleton.mpr rfl)

theorem shutdown_graceful : c.Graceful c.shutdown := by
  unfold shutdown
  split
  · exact ⟨fun hc _ => hc, fun _ _ => shutdownInLoop_or { c with state := .kDisconnecting }⟩
  · exact .of_same c rfl rfl rfl

theorem handleClose_graceful : c.Graceful c.handleClose := .of_closed c rfl

theorem forceCloseInLoop_graceful : c.Graceful c.forceCloseInLoop := by
  unfold forceCloseInLoop
  split
  · exact handleClose_graceful c
  · exact .of_same c rfl rfl rfl

theorem handleRead_graceful (received : SysResult (List UInt8)) :
    c.Graceful (c.handleRead received) := by
  unfold handleRead
  split
  · exact handleClose_graceful c
  · exact .of_same c rfl rfl rfl
  · exact .of_same c rfl rfl rfl

theorem connectDestroyed_graceful : c.Graceful c.connectDestroyed := by
  unfold connectDestroyed
  split
  · exact .of_closed c rfl
  · exact .of_same c rfl rfl rfl

/-- `handleWrite` stops waiting only when it has drained the buffer, and shuts the socket
down then if it has to. -/
theorem handleWrite_graceful (w : WriteResult) : c.Graceful (c.handleWrite w) := by
  unfold handleWrite
  split
  · rename_i hwriting
    split
    · dsimp only
      split
      · rename_i n _ hempty
        refine ⟨fun _ _ => iff_of_false ?_ (not_not.mpr (contents_eq_nil_iff.mpr hempty)),
          fun hr _ => Or.inr (List.mem_append_right _ ?_)⟩
        · rw [Channel.isWriting_disableWriting]
          exact Bool.false_ne_true
        · rw [if_pos (show c.state = .kDisconnecting from hr), shutdownInLoop,
            Channel.isWriting_disableWriting]
          exact List.mem_singleton.mpr rfl
      · rename_i hmore
        exact ⟨fun _ _ => iff_of_true hwriting (mt contents_eq_nil_iff.mp hmore),
          fun _ _ => Or.inl hwriting⟩
    · split
      · exact handleClose_graceful c
      · exact .of_same c rfl rfl rfl
  · exact .of_same c rfl rfl rfl

/-- A writable socket takes one byte at least from the buffer. -/
theorem handleWrite_takes (hc : c.Waits) {w : WriteResult} {n : Nat} (hw : w.ret = some (n + 1)) :
    (c.handleWrite w).1.outputBuffer.contents.length ≤ c.outputBuffer.contents.length - 1 := by
  have hdrop : (c.outputBuffer.retrieve (n + 1)).contents.length ≤
      c.outputBuffer.contents.length - 1 := by
    rw [ByteBuffer.contents_retrieve, List.length_drop]
    omega
  unfold handleWrite
  split
  · rw [hw]
    dsimp only
    split
    · exact hdrop
    · exact hdrop
  · rename_i hidle
    have hnil : c.outputBuffer.contents = [] := by
      by_contra hne
      exact hidle (hc.mpr hne)
    simp [hnil]

end TcpConnection
/-- The step handles the writability of the socket. -/
def SharedOp.isHandleWrite {τ : Type} : SharedOp τ → Bool
  | .handleWrite _ => true
  | _ => false

namespace SharedConnection

variable {τ : Type} {s s' : SharedConnection τ} {op : SharedOp τ}

/-! ## The shutdown is not forgotten -/

/-- As long as the connection has not been closed, the channel waits for what is buffered, and
a connection that is disconnecting has been shut down, or will be: by `handleWrite`, or by a
functor of those that are queued. -/
structure Polite (s : SharedConnection τ) : Prop where
  waits : ConnectionEvent.state .kDisconnected ∉ s.log → s.conn.Waits
  shuts : ConnectionEvent.state .kDisconnected ∉ s.log → s.conn.state = .kDisconnecting →
    .shutdownWrite ∈ s.log ∨ s.conn.channel.isWriting = true ∨ ∃ f ∈ s.functors, f.sends = false

theorem established_polite (writeComplete highWater : Bool) (mark : Nat) :
    (established writeComplete highWater mark : SharedConnection τ).Polite where
  waits _ := by
    have hidle : Channel.initial.enableReading.isWriting = false := by
      rw [Channel.isWriting_enableReading]
      rfl
    simp [established, TcpConnection.connectEstablished, TcpConnection.initial, TcpConnection.Waits,
      hidle]
  shuts _ h := by simp [established, TcpConnection.connectEstablished] at h

theorem shutdownWrite_mem_events_of {closer : Closer} {writes : Bool}
    {r : TcpConnection × List Effect} (h : Effect.shutdownWrite ∈ r.2) :
    ConnectionEvent.shutdownWrite ∈ events closer writes r :=
  List.mem_append_left _ (List.mem_append_right _ (List.mem_filterMap.mpr ⟨_, h, rfl⟩))

theorem state_mem_after (s : SharedConnection τ) (closer : Closer) (writes : Bool)
    (r : TcpConnection × List Effect) :
    ConnectionEvent.state r.1.state ∈ (s.after closer writes r).log :=
  List.mem_append_right _ (List.mem_append_right _ (List.mem_singleton.mpr rfl))

/-- A method has run, and what it made of the queue was not needed. -/
theorem Polite.after (hs : s.Polite) {q : List ConnectionFunctor} {closer : Closer}
    {writes : Bool} {r : TcpConnection × List Effect} (hr : s.conn.Graceful r)
    (hqueue : r.1.state = .kDisconnecting → (∃ f ∈ s.functors, f.sends = false) →
      (∃ f ∈ q, f.sends = false) ∨ r.1.channel.isWriting = true ∨ Effect.shutdownWrite ∈ r.2) :
    (({ s with functors := q } : SharedConnection τ).after closer writes r).Polite := by
  have hold : ConnectionEvent.state .kDisconnected ∉
      (({ s with functors := q } : SharedConnection τ).after closer writes r).log →
      ConnectionEvent.state .kDisconnected ∉ s.log :=
    fun hno hmem => hno (List.mem_append_left _ hmem)
  refine ⟨fun hno => hr.waits (hs.waits (hold hno)) fun hdown => ?_, fun hno hstate => ?_⟩
  · refine hno ?_
    rw [← hdown]
    exact state_mem_after { s with functors := q } closer writes r
  · have hshut : Effect.shutdownWrite ∈ r.2 → ConnectionEvent.shutdownWrite ∈
        (({ s with functors := q } : SharedConnection τ).after closer writes r).log :=
      fun hmem => List.mem_append_right _ (shutdownWrite_mem_events_of hmem)
    have hstate' : r.1.state = .kDisconnecting := hstate
    by_cases hbefore : s.conn.state = .kDisconnecting
    · rcases hs.shuts (hold hno) hbefore with hlog | hwriting | hqueued
      · exact Or.inl (List.mem_append_left _ hlog)
      · rcases hr.shuts hstate' (Or.inr hwriting) with hw | hmem
        · exact Or.inr (Or.inl hw)
        · exact Or.inl (hshut hmem)
      · rcases hqueue hstate' hqueued with hq | hw | hmem
        · exact Or.inr (Or.inr hq)
        · exact Or.inr (Or.inl hw)
        · exact Or.inl (hshut hmem)
    · rcases hr.shuts hstate' (Or.inl hbefore) with hw | hmem
      · exact Or.inr (Or.inl hw)
      · exact Or.inl (hshut hmem)

/-- A method that leaves the queue alone. -/
theorem Polite.method (hs : s.Polite) {closer : Closer} {writes : Bool}
    {r : TcpConnection × List Effect} (hr : s.conn.Graceful r) : (s.after closer writes r).Polite :=
  hs.after (q := s.functors) hr fun _ hq => Or.inl hq

theorem Polite.runFunctor (hs : s.Polite) {f : ConnectionFunctor} {rest : List ConnectionFunctor}
    (hf : s.functors = f :: rest) (w : WriteResult) :
    (SharedConnection.runFunctor { s with functors := rest } w f).Polite := by
  cases f with
  | sendInLoop data =>
    refine hs.after (s.conn.sendInLoop_graceful data w) fun _ hq => Or.inl ?_
    obtain ⟨g, hg, hno⟩ := hq
    rw [hf] at hg
    rcases List.mem_cons.mp hg with rfl | hg
    · cases hno
    · exact ⟨g, hg, hno⟩
  | shutdownInLoop =>
    refine hs.after (r := (s.conn, s.conn.shutdownInLoop)) ?_ fun _ _ => Or.inr ?_
    · exact .of_same s.conn rfl rfl rfl
    · exact s.conn.shutdownInLoop_or
  | forceCloseInLoop =>
    refine hs.after s.conn.forceCloseInLoop_graceful fun hstate _ => ?_
    -- it closes every connection that is not disconnected, so none is disconnecting after it
    unfold TcpConnection.forceCloseInLoop at hstate
    split at hstate
    · cases hstate
    · rename_i hno
      exact absurd (Or.inr hstate) hno

theorem step_polite [DecidableEq τ] (hs : s.Polite) (h : s.step op = some s') : s'.Polite := by
  cases op with
  | post data =>
    simp only [step] at h
    split at h
    · rename_i hstate
      obtain rfl := Option.some.inj h
      refine ⟨hs.waits, fun _ hdisc => ?_⟩
      rw [show s.conn.state = .kDisconnecting from hdisc] at hstate
      cases hstate
    · obtain rfl := Option.some.inj h
      exact hs
  | test t call =>
    simp only [step] at h
    split at h
    · cases h
    · split at h
      · obtain rfl := Option.some.inj h
        exact ⟨hs.waits, hs.shuts⟩
      · obtain rfl := Option.some.inj h
        exact hs
  | store t =>
    simp only [step] at h
    split at h
    · cases h
    · rename_i call _
      obtain rfl := Option.some.inj h
      refine ⟨fun hno => ?_, fun _ _ => Or.inr (Or.inr ⟨call.functor, ?_, ?_⟩)⟩
      · exact hs.waits fun hmem => hno (List.mem_append_left _ hmem)
      · exact List.mem_append_right _ (List.mem_singleton.mpr rfl)
      · cases call <;> rfl
  | functor w =>
    simp only [step] at h
    split at h
    · cases h
    · rename_i f rest hf
      obtain rfl := Option.some.inj h
      exact hs.runFunctor hf w
  | send data w =>
    obtain rfl := Option.some.inj h
    exact hs.method (s.conn.send_graceful data w)
  | shutdown =>
    obtain rfl := Option.some.inj h
    exact hs.method s.conn.shutdown_graceful
  | forceClose =>
    obtain rfl := Option.some.inj h
    rw [TcpConnection.forceClose_eq]
    exact hs.method s.conn.forceCloseInLoop_graceful
  | handleRead received =>
    obtain rfl := Option.some.inj h
    exact hs.method (s.conn.handleRead_graceful received)
  | handleWrite w =>
    obtain rfl := Option.some.inj h
    exact hs.method (s.conn.handleWrite_graceful w)
  | handleClose =>
    obtain rfl := Option.some.inj h
    exact hs.method s.conn.handleClose_graceful
  | connectDestroyed =>
    obtain rfl := Option.some.inj h
    exact hs.method s.conn.connectDestroyed_graceful

/-! ## The buffer is drained -/

/-- The connection is disconnecting, and nothing that is queued adds to its output. -/
structure Draining (s : SharedConnection τ) : Prop where
  state : s.conn.state = .kDisconnecting
  functors : ∀ f ∈ s.functors, f.sends = false

/-- The number of bytes that are still to be written. -/
def backlog (s : SharedConnection τ) : Nat := s.conn.outputBuffer.contents.length

/-- What one step does to a connection that is draining. -/
structure Drains (s s' : SharedConnection τ) (taken : Nat) : Prop where
  draining : s'.Draining
  stream : s'.conn.stream = s.conn.stream
  backlog : s'.backlog ≤ s.backlog - taken

theorem Drains.refl (hs : s.Draining) : s.Drains s 0 := ⟨hs, rfl, Nat.le_refl _⟩

/-- A method that leaves the output alone, or closes the connection. -/
theorem drains_after (hs : s.Draining) {q : List ConnectionFunctor}
    (hqueue : ∀ f ∈ q, f.sends = false) {closer : Closer} {writes : Bool}
    {r : TcpConnection × List Effect} {taken : Nat}
    (hr : r.1.state ≠ .kDisconnected → r.1.state = s.conn.state ∧ r.1.stream = s.conn.stream ∧
      r.1.outputBuffer.contents.length ≤ s.conn.outputBuffer.contents.length - taken)
    (hopen : ConnectionEvent.state .kDisconnected ∉
      (({ s with functors := q } : SharedConnection τ).after closer writes r).log) :
    s.Drains (({ s with functors := q } : SharedConnection τ).after closer writes r) taken := by
  have hup : r.1.state ≠ .kDisconnected := by
    intro hdown
    refine hopen ?_
    rw [← hdown]
    exact state_mem_after { s with functors := q } closer writes r
  obtain ⟨hstate, hstream, hlen⟩ := hr hup
  exact ⟨⟨hstate.trans hs.state, hqueue⟩, hstream, hlen⟩

/-- The methods that do not write. -/
theorem drains_of_stream (hs : s.Draining) {closer : Closer} {writes : Bool}
    {r : TcpConnection × List Effect}
    (hr : r.1.state ≠ .kDisconnected → r.1.state = s.conn.state ∧ r.1.stream = s.conn.stream ∧
      r.1.outputBuffer = s.conn.outputBuffer)
    (hopen : ConnectionEvent.state .kDisconnected ∉ (s.after closer writes r).log) :
    s.Drains (s.after closer writes r) 0 := by
  refine drains_after (q := s.functors) hs hs.functors (fun hup => ?_) hopen
  obtain ⟨hstate, hstream, hbuffer⟩ := hr hup
  exact ⟨hstate, hstream, hbuffer ▸ Nat.le_refl _⟩

theorem forceCloseInLoop_drains (hs : s.Draining) {q : List ConnectionFunctor}
    (hqueue : ∀ f ∈ q, f.sends = false) {closer : Closer} {writes : Bool} {taken : Nat}
    (hopen : ConnectionEvent.state .kDisconnected ∉
      (({ s with functors := q } : SharedConnection τ).after closer writes
        s.conn.forceCloseInLoop).log) :
    s.Drains (({ s with functors := q } : SharedConnection τ).after closer writes
      s.conn.forceCloseInLoop) taken := by
  refine drains_after hs hqueue (fun hup => absurd ?_ hup) hopen
  simp [TcpConnection.forceCloseInLoop, hs.state, TcpConnection.handleClose]

theorem runFunctor_drains (hs : s.Draining) {f : ConnectionFunctor}
    {rest : List ConnectionFunctor} (hf : s.functors = f :: rest) (w : WriteResult)
    (hopen : ConnectionEvent.state .kDisconnected ∉
      (runFunctor { s with functors := rest } w f).log) :
    s.Drains (runFunctor { s with functors := rest } w f) 0 := by
  have hrest : ∀ g ∈ rest, g.sends = false :=
    fun g hg => hs.functors g (hf ▸ List.mem_cons_of_mem f hg)
  cases f with
  | sendInLoop data => cases hs.functors _ (hf ▸ List.mem_cons_self)
  | shutdownInLoop => exact drains_after hs hrest (fun _ => ⟨rfl, rfl, Nat.le_refl _⟩) hopen
  | forceCloseInLoop => exact forceCloseInLoop_drains hs hrest hopen

/-- **A step of a connection that is draining.**  It adds nothing to the output, and takes a
byte at least if it handles the writability of the socket. -/
theorem step_drains [DecidableEq τ] (hs : s.Draining) (hp : s.Polite) (h : s.step op = some s')
    (hopen : ConnectionEvent.state .kDisconnected ∉ s'.log)
    (hop : ∀ w, op = .handleWrite w → ∃ n, w.ret = some (n + 1)) :
    s.Drains s' (if op.isHandleWrite then 1 else 0) := by
  have hdisc := hs.state
  cases op with
  | post data =>
    simp only [step, hdisc] at h
    obtain rfl := Option.some.inj h
    exact .refl hs
  | test t call =>
    simp only [step] at h
    split at h
    · cases h
    · split at h
      · obtain rfl := Option.some.inj h
        exact ⟨⟨hdisc, hs.functors⟩, rfl, Nat.le_refl _⟩
      · obtain rfl := Option.some.inj h
        exact .refl hs
  | store t =>
    simp only [step] at h
    split at h
    · cases h
    · rename_i call _
      obtain rfl := Option.some.inj h
      refine ⟨⟨rfl, fun f hf => ?_⟩, rfl, Nat.le_refl _⟩
      rcases List.mem_append.mp hf with hf | hf
      · exact hs.functors f hf
      · obtain rfl := List.mem_singleton.mp hf
        cases call <;> rfl
  | functor w =>
    simp only [step] at h
    split at h
    · cases h
    · rename_i f rest hf
      obtain rfl := Option.some.inj h
      exact runFunctor_drains hs hf w hopen
  | send data w =>
    obtain rfl := Option.some.inj h
    refine drains_of_stream hs (fun _ => ?_) hopen
    simp [TcpConnection.send, hdisc]
  | shutdown =>
    obtain rfl := Option.some.inj h
    refine drains_of_stream hs (fun _ => ?_) hopen
    simp [TcpConnection.shutdown, hdisc]
  | forceClose =>
    obtain rfl := Option.some.inj h
    rw [TcpConnection.forceClose_eq] at hopen ⊢
    exact forceCloseInLoop_drains hs hs.functors hopen
  | handleRead received =>
    obtain rfl := Option.some.inj h
    refine drains_of_stream hs (fun hup => ?_) hopen
    refine ⟨?_, s.conn.stream_handleRead received, ?_⟩
    · unfold TcpConnection.handleRead at hup ⊢
      split at hup
      · exact absurd rfl hup
      · rfl
      · rfl
    · unfold TcpConnection.handleRead
      split <;> rfl
  | handleWrite w =>
    obtain rfl := Option.some.inj h
    obtain ⟨n, hw⟩ := hop w rfl
    have hwaits : s.conn.Waits := hp.waits fun hmem => hopen (List.mem_append_left _ hmem)
    refine drains_after (q := s.functors) hs hs.functors (fun hup => ?_) hopen
    refine ⟨?_, s.conn.stream_handleWrite w, s.conn.handleWrite_takes hwaits hw⟩
    have hquiet := (s.conn.handleWrite_handler w).method.leads
    rcases hquiet with hsame | hdown | ⟨hconn, -⟩
    · exact hsame
    · exact absurd hdown hup
    · rw [hdisc] at hconn
      cases hconn
  | handleClose =>
    obtain rfl := Option.some.inj h
    exact drains_after (q := s.functors) hs hs.functors (fun hup => absurd rfl hup) hopen
  | connectDestroyed =>
    obtain rfl := Option.some.inj h
    refine drains_of_stream hs (fun _ => ?_) hopen
    simp [TcpConnection.connectDestroyed, hdisc]

theorem log_prefix_of_step [DecidableEq τ] (h : s.step op = some s') : s.log <+: s'.log := by
  cases step_logged h with
  | quiet _ _ hlog => exact hlog ▸ List.prefix_rfl
  | stored _ hlog => exact hlog ▸ List.prefix_append _ _
  | method _ _ hlog => exact hlog ▸ List.prefix_append _ _

theorem log_prefix_of_run [DecidableEq τ] {ops : List (SharedOp τ)}
    (hrun : Machine.run step s ops = some s') : s.log <+: s'.log :=
  Machine.run_invariant (P := fun t => s.log <+: t.log)
    (fun _ _ _ hlog h => hlog.trans (log_prefix_of_step h)) hrun List.prefix_rfl

/-- Along a run as many bytes are gone as the socket was writable, if there were so many. -/
theorem run_drains [DecidableEq τ] {ops : List (SharedOp τ)} (hs : s.Draining) (hp : s.Polite)
    (hrun : Machine.run step s ops = some s')
    (hopen : ConnectionEvent.state .kDisconnected ∉ s'.log)
    (hops : ∀ w, .handleWrite w ∈ ops → ∃ n, w.ret = some (n + 1)) :
    s.Drains s' (ops.countP SharedOp.isHandleWrite) := by
  induction ops generalizing s with
  | nil =>
    obtain rfl := Option.some.inj hrun
    exact .refl hs
  | cons op ops ih =>
    obtain ⟨t, ht, hrest⟩ := Machine.run_cons_eq_some.mp hrun
    have hopent : ConnectionEvent.state .kDisconnected ∉ t.log :=
      fun hmem => hopen ((log_prefix_of_run hrest).subset hmem)
    have hfirst := step_drains hs hp ht hopent fun w hw => hops w (hw ▸ List.mem_cons_self)
    have hlater := ih hfirst.draining (step_polite hp ht) hrest
      fun w hw => hops w (List.mem_cons_of_mem op hw)
    refine ⟨hlater.draining, hlater.stream.trans hfirst.stream, ?_⟩
    have h₁ := hfirst.backlog
    have h₂ := hlater.backlog
    rw [List.countP_cons]
    omega

/-- **A shutdown completes.**  Let a connection that has never been closed be disconnecting, and
let all that was given to `send` before be in its output buffer or written.  In every continuation
that does not close the connection, whatever the threads do in it, and in which a writable socket
takes a byte at least: once the socket has been writable as often as there were bytes to write,
all of them have been written, nothing else has, and if no functor is queued the socket has been
shut down.  (`send` on another thread tests and posts in one step, so that it does not post any
more.) -/
theorem graceful_shutdown [DecidableEq τ] {writeComplete highWater : Bool} {mark : Nat}
    {before after : List (SharedOp τ)} {t : SharedConnection τ}
    (hbefore : Machine.run step (established writeComplete highWater mark) before = some s)
    (hstate : s.conn.state = .kDisconnecting) (hsent : ∀ f ∈ s.functors, f.sends = false)
    (hafter : Machine.run step s after = some t)
    (hopen : ConnectionEvent.state .kDisconnected ∉ t.log)
    (hwrites : ∀ w, .handleWrite w ∈ after → ∃ n, w.ret = some (n + 1))
    (henough : s.conn.outputBuffer.contents.length ≤ after.countP SharedOp.isHandleWrite) :
    t.conn.written = s.conn.written ++ s.conn.outputBuffer.contents ∧
      (t.functors = [] → .shutdownWrite ∈ t.log) := by
  have hs : s.Polite := Machine.run_invariant (fun _ _ _ hs h => step_polite hs h) hbefore
    (established_polite writeComplete highWater mark)
  have ht : t.Polite := Machine.run_invariant (fun _ _ _ hs h => step_polite hs h) hafter hs
  have hdrains := run_drains ⟨hstate, hsent⟩ hs hafter hopen hwrites
  have hnil : t.conn.outputBuffer.contents = [] := by
    have hlen := hdrains.backlog
    simp only [backlog] at hlen
    exact List.eq_nil_of_length_eq_zero (by omega)
  refine ⟨?_, fun hnone => ?_⟩
  · have hstream := hdrains.stream
    simp only [TcpConnection.stream, hnil, List.append_nil] at hstream
    exact hstream
  · rcases ht.shuts hopen hdrains.draining.state with hlog | hwriting | ⟨f, hf, -⟩
    · exact hlog
    · exact absurd hnil ((ht.waits hopen).mp hwriting)
    · rw [hnone] at hf
      cases hf

/-- Another thread sends five bytes and calls `shutdown`; the kernel takes two of the bytes at
once. -/
def shutdownWithBacklog : List (SharedOp Unit) :=
  [.post [1, 2, 3, 4, 5], .test () .shutdown, .store (), .functor ⟨some 2, 0⟩,
    .functor ⟨none, EWOULDBLOCK⟩]

theorem graceful_shutdown_shutdownWithBacklog :
    ∃ t, Machine.run step (established true true 64) (shutdownWithBacklog ++
        [.handleWrite ⟨some 1, 0⟩, .handleRead (.ok [7]), .handleWrite ⟨some 1, 0⟩,
          .handleWrite ⟨some 1, 0⟩]) = some t ∧
      t.conn.written = [1, 2, 3, 4, 5] ∧ .shutdownWrite ∈ t.log := by
  have hrun : (Machine.run step (established true true 64) shutdownWithBacklog).map
      (fun s : SharedConnection Unit => (s.conn.state, s.functors, s.conn.written,
        s.conn.outputBuffer.contents)) =
      some (.kDisconnecting, [], [1, 2], [3, 4, 5]) := by decide +kernel
  obtain ⟨s, hs, heq⟩ := Option.map_eq_some_iff.mp hrun
  simp only [Prod.mk.injEq] at heq
  obtain ⟨hstate, hfunctors, hwritten, hcontents⟩ := heq
  have hlater : (Machine.run step (established true true 64) (shutdownWithBacklog ++
      [.handleWrite ⟨some 1, 0⟩, .handleRead (.ok [7]), .handleWrite ⟨some 1, 0⟩,
        .handleWrite ⟨some 1, 0⟩])).map (fun t : SharedConnection Unit => (t.functors,
          decide (ConnectionEvent.state .kDisconnected ∈ t.log))) = some ([], false) := by
    decide +kernel
  obtain ⟨t, ht, heq⟩ := Option.map_eq_some_iff.mp hlater
  simp only [Prod.mk.injEq, decide_eq_false_iff_not] at heq
  obtain ⟨u, hu, hafter⟩ := Machine.run_append_eq_some.mp ht
  obtain rfl := Option.some.inj (hs.symm.trans hu)
  obtain ⟨hall, hfin⟩ := graceful_shutdown hs hstate (by simp [hfunctors]) hafter heq.2
    (by simp) (by rw [hcontents]; decide)
  exact ⟨t, ht, by rw [hall, hwritten, hcontents]; rfl, hfin heq.1⟩

end SharedConnection
end ReMuduo
