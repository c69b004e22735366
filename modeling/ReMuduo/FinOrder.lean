import ReMuduo.OutputStream
import ReMuduo.SharedConnection

/-! # No write after FIN

`shutdown` lets the output that is buffered go out before it shuts the socket down: as
long as the channel waits for writability `shutdownInLoop` does nothing, and
`handleWrite` calls it again when the buffer is empty.  Output that another thread has
posted and `sendInLoop` has not seen yet is not in the buffer, and `sendInLoop` refuses
a connection only when it is `kDisconnected`.

A posted `sendInLoop` can therefore be overtaken: by `shutdown` on the loop thread, which
does not wait for its turn in the queue, and by a `handleWrite` that drains the buffer of
a disconnecting connection.  `FinAfterSends` excludes just that, and then every `::write`
comes before the first `shutdownWrite()`.  A `shutdownInLoop` that is posted itself needs
no such condition: no `sendInLoop` is queued behind it (`Ordered.fifo`). -/
namespace ReMuduo

/-- `::write` has taken all of the `size` bytes it was offered. -/
def WriteResult.takes (w : WriteResult) (size : Nat) : Bool :=
  match w.ret with
  | some n => decide (size ≤ n)
  | none => false

/-- The functor gives bytes to the connection. -/
def ConnectionFunctor.sends : ConnectionFunctor → Bool
  | .sendInLoop _ => true
  | _ => false

namespace TcpConnection

/-- A method that does not shut the socket down and does not begin to wait for
writability. -/
structure Calm (c : TcpConnection) (r : TcpConnection × List Effect) : Prop where
  noShutdown : Effect.shutdownWrite ∉ r.2
  writing : r.1.channel.isWriting = true → c.channel.isWriting = true

variable (c : TcpConnection)

theorem Calm.same (c : TcpConnection) : c.Calm (c, []) := ⟨by simp, id⟩

theorem handleClose_calm : c.Calm c.handleClose :=
  ⟨handleClose_no_shutdown c, by simp [handleClose]⟩

theorem forceCloseInLoop_calm : c.Calm c.forceCloseInLoop := by
  unfold forceCloseInLoop
  split
  · exact handleClose_calm c
  · exact .same c

theorem handleRead_calm (received : SysResult (List UInt8)) : c.Calm (c.handleRead received) := by
  unfold handleRead
  split
  · exact handleClose_calm c
  · exact ⟨by simp, id⟩
  · exact .same c

theorem connectDestroyed_calm : c.Calm c.connectDestroyed := by
  unfold connectDestroyed
  split
  · exact ⟨by simp, by simp⟩
  · exact ⟨by simp, id⟩

/-- `handleWrite` shuts the socket down when it drains the buffer of a disconnecting
connection. -/
theorem handleWrite_drains {c : TcpConnection} {w : WriteResult}
    (h : Effect.shutdownWrite ∈ (c.handleWrite w).2) :
    c.channel.isWriting = true ∧ c.state = .kDisconnecting ∧
      (c.handleWrite w).1.state = .kDisconnecting ∧
      w.takes c.outputBuffer.readableBytes = true := by
  unfold handleWrite at h ⊢
  split at h
  · rename_i hwriting
    rw [if_pos hwriting]
    split at h
    · rename_i n hret
      dsimp only at h ⊢
      split at h
      · rename_i hempty
        rw [if_pos hempty]
        have hstate : c.state = .kDisconnecting := by
          rcases List.mem_append.mp h with h | h
          · split at h <;> simp at h
          · split at h
            · assumption
            · cases h
        refine ⟨hwriting, hstate, hstate, ?_⟩
        rw [← ByteBuffer.length_contents, ByteBuffer.contents_retrieve, List.length_drop] at hempty
        rw [WriteResult.takes, hret, ← ByteBuffer.length_contents]
        exact decide_eq_true (Nat.sub_eq_zero_iff_le.mp hempty)
      · cases h
    · split at h
      · exact absurd h (handleClose_no_shutdown c)
      · cases h
  · cases h

end TcpConnection

namespace SharedConnection

variable {τ : Type} {s s' : SharedConnection τ} {op : SharedOp τ}

/-- Every `::write` comes before the first `shutdownWrite()`. -/
def WritesBeforeFin (log : List ConnectionEvent) : Prop :=
  log.Pairwise (fun e f => e = .shutdownWrite → f ≠ .write)

/-- The socket is not shut down over a `sendInLoop` that is still queued: `shutdown` on the
loop thread, if it does not find the channel waiting for writability, and a `handleWrite` whose
`::write` takes all that is buffered of a disconnecting connection, find none in the queue. -/
def FinAfterSends (s : SharedConnection τ) : SharedOp τ → Prop
  | .shutdown => s.conn.state = .kConnected → s.conn.channel.isWriting = false →
      ∀ f ∈ s.functors, f.sends = false
  | .handleWrite w => s.conn.channel.isWriting = true → s.conn.state = .kDisconnecting →
      w.takes s.conn.outputBuffer.readableBytes = true → ∀ f ∈ s.functors, f.sends = false
  | _ => True

instance decidableFinAfterSends (s : SharedConnection τ) : ∀ op, Decidable (s.FinAfterSends op)
  | .shutdown => inferInstanceAs (Decidable (s.conn.state = .kConnected →
      s.conn.channel.isWriting = false → ∀ f ∈ s.functors, f.sends = false))
  | .handleWrite w => inferInstanceAs (Decidable (s.conn.channel.isWriting = true →
      s.conn.state = .kDisconnecting → w.takes s.conn.outputBuffer.readableBytes = true →
      ∀ f ∈ s.functors, f.sends = false))
  | .post _ | .test _ _ | .store _ | .functor _ | .send _ _ | .forceClose | .handleRead _
  | .handleClose | .connectDestroyed => isTrue trivial

/-- The writes are in order so far, no `sendInLoop` is queued behind a `shutdownInLoop`, and
after the shutdown nothing is left that would write. -/
structure Ordered (s : SharedConnection τ) : Prop where
  order : WritesBeforeFin s.log
  fifo : s.functors.Pairwise (fun f g => f = .shutdownInLoop → g.sends = false)
  stopped : .shutdownInLoop ∈ s.functors → s.conn.state ≠ .kConnected
  fin : .shutdownWrite ∈ s.log → s.conn.state ≠ .kConnected ∧
    s.conn.channel.isWriting = false ∧ ∀ f ∈ s.functors, f.sends = false

theorem shutdownWrite_mem_events {closer : Closer} {writes : Bool}
    {r : TcpConnection × List Effect}
    (h : ConnectionEvent.shutdownWrite ∈ events closer writes r) : Effect.shutdownWrite ∈ r.2 := by
  rcases List.mem_append.mp h with h | h
  · rcases List.mem_append.mp h with h | h
    · split at h <;> simp at h
    · obtain ⟨e, hmem, he⟩ := List.mem_filterMap.mp h
      cases e <;> cases he
      exact hmem
  · simp at h

theorem write_notMem_filterMap (closer : Closer) (effects : List Effect) :
    ConnectionEvent.write ∉ effects.filterMap (Effect.event closer) := by
  intro h
  obtain ⟨e, -, he⟩ := List.mem_filterMap.mp h
  cases e <;> cases he

/-- In what one method logs, the `::write` comes first. -/
theorem writesBeforeFin_events (closer : Closer) (writes : Bool)
    (r : TcpConnection × List Effect) : WritesBeforeFin (events closer writes r) := by
  have htail : ∀ f ∈ r.2.filterMap (Effect.event closer) ++ [.state r.1.state],
      f ≠ ConnectionEvent.write := by
    intro f hf hwrite
    rw [hwrite] at hf
    rcases List.mem_append.mp hf with hf | hf
    · exact write_notMem_filterMap _ _ hf
    · simp at hf
  rw [events, List.append_assoc]
  refine List.pairwise_append.mpr ⟨?_, ?_, ?_⟩
  · split
    · exact List.pairwise_singleton _ _
    · exact List.Pairwise.nil
  · exact List.pairwise_of_forall_mem_list fun _ _ f hf _ => htail f hf
  · exact fun _ _ f hf _ => htail f hf

theorem write_mem_events {closer : Closer} {writes : Bool} {r : TcpConnection × List Effect}
    (h : ConnectionEvent.write ∈ events closer writes r) : writes = true := by
  rcases List.mem_append.mp h with h | h
  · rcases List.mem_append.mp h with h | h
    · split at h
      · assumption
      · cases h
    · exact absurd h (write_notMem_filterMap _ _)
  · simp at h

/-- **What is to be shown of a method on the loop thread**: it does not write after the
shutdown, and once the socket is shut down, now or before, nothing is left that would
write. -/
theorem Ordered.after (hs : s.Ordered) {fs : List ConnectionFunctor} (hfs : fs <:+ s.functors)
    {closer : Closer} {writes : Bool} {r : TcpConnection × List Effect}
    (hr : s.conn.Method r) (hwrites : .shutdownWrite ∈ s.log → writes = false)
    (hfin : .shutdownWrite ∈ s.log ∨ .shutdownWrite ∈ r.2 → r.1.state ≠ .kConnected ∧
      r.1.channel.isWriting = false ∧ ∀ f ∈ fs, f.sends = false) :
    Ordered (({ s with functors := fs } : SharedConnection τ).after closer writes r) where
  order := by
    refine List.pairwise_append.mpr ⟨hs.order, writesBeforeFin_events _ _ _, ?_⟩
    rintro e he f hf rfl rfl
    exact Bool.false_ne_true ((hwrites he).symm.trans (write_mem_events hf))
  fifo := hs.fifo.sublist hfs.sublist
  stopped := fun hmem hstate => hs.stopped (hfs.subset hmem) (hr.leads.connected hstate)
  fin := by
    intro hmem
    exact hfin ((List.mem_append.mp hmem).imp_right shutdownWrite_mem_events)

theorem Ordered.calm (hs : s.Ordered) {fs : List ConnectionFunctor} (hfs : fs <:+ s.functors)
    {closer : Closer} {r : TcpConnection × List Effect} (hr : s.conn.Method r)
    (hcalm : s.conn.Calm r) :
    Ordered (({ s with functors := fs } : SharedConnection τ).after closer false r) := by
  refine hs.after hfs hr (fun _ => rfl) ?_
  rintro (hmem | hmem)
  · obtain ⟨hopen, hidle, hsends⟩ := hs.fin hmem
    refine ⟨fun h => hopen (hr.leads.connected h), ?_, fun f hf => hsends f (hfs.subset hf)⟩
    refine Bool.eq_false_iff.mpr fun hwriting => ?_
    rw [hcalm.writing hwriting] at hidle
    cases hidle
  · exact absurd hmem hcalm.noShutdown

theorem Ordered.post (hs : s.Ordered) (hstate : s.conn.state = .kConnected)
    (data : List UInt8) :
    Ordered { s with functors := s.functors ++ [.sendInLoop data] } where
  order := hs.order
  fifo := by
    refine List.pairwise_append.mpr ⟨hs.fifo, List.pairwise_singleton _ _, ?_⟩
    rintro f hf g - rfl
    exact absurd hstate (hs.stopped hf)
  stopped := by
    intro hmem
    exact hs.stopped (by simpa using hmem)
  fin := fun hmem => absurd hstate (hs.fin hmem).1

theorem Ordered.store (hs : s.Ordered) (call : ForeignCall) (foreign : τ → Option ForeignCall) :
    Ordered (({ s with foreign := foreign, functors := s.functors ++ [call.functor] } :
      SharedConnection τ).after .handler false ({ s.conn with state := .kDisconnecting }, [])) where
  order := by
    refine List.pairwise_append.mpr ⟨hs.order, List.pairwise_singleton _ _, ?_⟩
    rintro e - f hf -
    rw [List.mem_singleton.mp hf]
    nofun
  fifo := by
    refine List.pairwise_append.mpr ⟨hs.fifo, List.pairwise_singleton _ _, ?_⟩
    rintro f - g hg -
    rw [List.mem_singleton.mp hg]
    cases call <;> rfl
  stopped := nofun
  fin := by
    intro hmem
    have hmem : ConnectionEvent.shutdownWrite ∈ s.log := by
      rcases List.mem_append.mp hmem with h | h
      · exact h
      · cases List.mem_singleton.mp h
    obtain ⟨-, hidle, hsends⟩ := hs.fin hmem
    refine ⟨nofun, hidle, fun f hf => ?_⟩
    rcases List.mem_append.mp hf with hf | hf
    · exact hsends f hf
    · rw [List.mem_singleton.mp hf]
      cases call <;> rfl

/-- The socket has not been shut down as long as a `sendInLoop` may run. -/
theorem Ordered.sendInLoop (hs : s.Ordered) {fs : List ConnectionFunctor}
    (hfs : fs <:+ s.functors) (hno : .shutdownWrite ∉ s.log) {writes : Bool}
    (data : List UInt8) (w : WriteResult) :
    Ordered (({ s with functors := fs } : SharedConnection τ).after .handler writes
      (s.conn.sendInLoop data w)) :=
  hs.after hfs (TcpConnection.sendInLoop_handler _ _ _).method (fun hmem => absurd hmem hno)
    (fun hmem => (hmem.elim hno (TcpConnection.sendInLoop_no_shutdown _ _ _)).elim)

theorem Ordered.runFunctor (hs : s.Ordered) {f : ConnectionFunctor}
    {rest : List ConnectionFunctor} (hf : s.functors = f :: rest) (w : WriteResult) :
    Ordered (runFunctor { s with functors := rest } w f) := by
  have hfs : rest <:+ s.functors := hf ▸ List.suffix_cons f rest
  cases f with
  | sendInLoop data =>
    refine hs.sendInLoop hfs (fun hmem => ?_) data w
    have := (hs.fin hmem).2.2 (.sendInLoop data) (hf ▸ List.mem_cons_self)
    cases this
  | shutdownInLoop =>
    -- what is behind it in the queue was posted later, and `send` posts nothing by then
    have hfirst := hs.stopped (hf ▸ List.mem_cons_self)
    have hrest : ∀ g ∈ rest, g.sends = false := by
      intro g hg
      have hfifo := hs.fifo
      rw [hf] at hfifo
      exact (List.pairwise_cons.mp hfifo).1 g hg rfl
    refine hs.after hfs (TcpConnection.shutdownInLoop_handler _).method (fun _ => rfl) ?_
    rintro (hmem | hmem)
    · exact ⟨hfirst, (hs.fin hmem).2.1, hrest⟩
    · exact ⟨hfirst, TcpConnection.shutdownInLoop_idle hmem, hrest⟩
  | forceCloseInLoop =>
    exact hs.calm hfs (TcpConnection.forceCloseInLoop_handler _).method
      (TcpConnection.forceCloseInLoop_calm _)

theorem Ordered.send (hs : s.Ordered) (data : List UInt8) (w : WriteResult) :
    Ordered (s.after .handler (decide (s.conn.state = .kConnected) && s.conn.writesDirectly)
      (s.conn.send data w)) := by
  by_cases hstate : s.conn.state = .kConnected
  · rw [TcpConnection.send, if_pos hstate]
    exact hs.sendInLoop (List.suffix_refl _) (fun hmem => (hs.fin hmem).1 hstate) data w
  · rw [TcpConnection.send, if_neg hstate, decide_eq_false hstate, Bool.false_and]
    have hsame : s.conn.Handler (s.conn, []) := .of_state rfl (by simp)
    exact hs.calm (List.suffix_refl _) hsame.method (.same _)

theorem Ordered.shutdown (hs : s.Ordered) (hG : s.FinAfterSends .shutdown) :
    Ordered (s.after .handler false s.conn.shutdown) := by
  refine hs.after (List.suffix_refl _) (TcpConnection.shutdown_handler _).method (fun _ => rfl) ?_
  unfold TcpConnection.shutdown
  split
  · rename_i hstate
    rintro (hmem | hmem)
    · exact absurd hstate (hs.fin hmem).1
    · have hidle := TcpConnection.shutdownInLoop_idle hmem
      exact ⟨nofun, hidle, hG hstate hidle⟩
  · rintro (hmem | hmem)
    · exact hs.fin hmem
    · cases hmem

theorem Ordered.handleWrite (hs : s.Ordered) {w : WriteResult}
    (hG : s.FinAfterSends (.handleWrite w)) :
    Ordered (s.after .handler s.conn.channel.isWriting (s.conn.handleWrite w)) := by
  refine hs.after (List.suffix_refl _) (TcpConnection.handleWrite_handler _ _).method
    (fun hmem => (hs.fin hmem).2.1) ?_
  rintro (hmem | hmem)
  · obtain ⟨hopen, hidle, hsends⟩ := hs.fin hmem
    rw [TcpConnection.handleWrite, hidle]
    exact ⟨hopen, hidle, hsends⟩
  · obtain ⟨hwriting, hstate, hstate', hdrained⟩ := TcpConnection.handleWrite_drains hmem
    refine ⟨?_, TcpConnection.handleWrite_shutdown hmem, hG hwriting hstate hdrained⟩
    rw [hstate']
    nofun

theorem step_ordered [DecidableEq τ] (hs : s.Ordered) (hG : s.FinAfterSends op)
    (h : s.step op = some s') : s'.Ordered := by
  cases op with
  | post data =>
    simp only [step] at h
    split at h
    · rename_i hstate
      cases h
      exact hs.post hstate data
    · cases h
      exact hs
  | test t call =>
    simp only [step] at h
    split at h
    · cases h
    · split at h <;> cases h
      · exact ⟨hs.order, hs.fifo, hs.stopped, hs.fin⟩
      · exact hs
  | store t =>
    simp only [step] at h
    split at h
    · cases h
    · cases h
      exact hs.store _ _
  | functor w =>
    simp only [step] at h
    split at h
    · cases h
    · rename_i f rest hf
      cases h
      exact hs.runFunctor hf w
  | send data w =>
    cases h
    exact hs.send data w
  | shutdown =>
    cases h
    exact hs.shutdown hG
  | forceClose =>
    cases h
    rw [TcpConnection.forceClose_eq]
    exact hs.calm (List.suffix_refl _) (TcpConnection.forceCloseInLoop_handler _).method
      (TcpConnection.forceCloseInLoop_calm _)
  | handleRead received =>
    cases h
    exact hs.calm (List.suffix_refl _) (TcpConnection.handleRead_handler _ _).method
      (TcpConnection.handleRead_calm _ _)
  | handleWrite w =>
    cases h
    exact hs.handleWrite hG
  | handleClose =>
    cases h
    exact hs.calm (List.suffix_refl _) (TcpConnection.handleClose_handler _).method
      (TcpConnection.handleClose_calm _)
  | connectDestroyed =>
    cases h
    exact hs.calm (List.suffix_refl _) (TcpConnection.connectDestroyed_method _)
      (TcpConnection.connectDestroyed_calm _)

/-- **No write after FIN**, for every interleaving of the threads in which the socket is not
shut down over a `sendInLoop` that is still queued: every `::write` on the socket comes
before the first `shutdownWrite()`. -/
theorem writes_before_fin [DecidableEq τ] {writeComplete highWater : Bool} {mark : Nat}
    {ops : List (SharedOp τ)}
    (hrun : Machine.run step (established writeComplete highWater mark) ops = some s)
    (hG : Machine.Along step FinAfterSends (established writeComplete highWater mark) ops) :
    WritesBeforeFin s.log := by
  have hs : s.Ordered := Machine.run_invariant_along
    (fun _ _ _ hs hG h => step_ordered hs hG h) hrun hG
    ⟨List.Pairwise.nil, List.Pairwise.nil, nofun, nofun⟩
  exact hs.order

/-- Another thread sends a byte, and before its turn comes a callback on the loop thread
calls `shutdown`: the byte is written to a socket that is shut down. -/
theorem written_after_fin :
    (Machine.run step (established false false 64 : SharedConnection Unit)
        [.post [1], .shutdown, .functor ⟨some 1, 0⟩]).map SharedConnection.log =
      some [.shutdownWrite, .state .kDisconnecting, .write, .state .kDisconnecting] := by
  decide +kernel

/-- Two threads: one sends, the other shuts down, and the rest of the output goes out
first. -/
def shutdownBehindSend : List (SharedOp Unit) :=
  [.post [1, 2], .test () .shutdown, .functor ⟨some 1, 0⟩, .store (), .functor ⟨none, 0⟩,
    .handleWrite ⟨some 1, 0⟩]

theorem writes_before_fin_shutdownBehindSend :
    ∃ s, Machine.run step (established false false 64) shutdownBehindSend = some s ∧
      s.log.count .write = 2 ∧ s.log.count .shutdownWrite = 1 ∧ WritesBeforeFin s.log := by
  have hrun : (Machine.run step (established false false 64) shutdownBehindSend).map
      (fun s => (s.log.count .write, s.log.count .shutdownWrite)) = some (2, 1) := by
    decide +kernel
  obtain ⟨s, hs, hcount⟩ := Option.map_eq_some_iff.mp hrun
  obtain ⟨hwrite, hfin⟩ := Prod.mk.inj hcount
  exact ⟨s, hs, hwrite, hfin, writes_before_fin hs (by decide +kernel)⟩

end SharedConnection
end ReMuduo
