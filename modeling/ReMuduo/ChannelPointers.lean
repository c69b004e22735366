import ReMuduo.RawFunctors

/-! # Pointers to the channels of connections

A channel is a member of its connection, and two places hold raw pointers to it: the kernel,
which gives them back from `epoll_wait` (`src/base/EpollPoller.cpp`), and `activeChannels_`,
which `EventLoop::loop` (`src/base/Eventloop.cpp`) goes through.  `handleEvent` looks at the
channel before `tie_.lock()` can tell whether the connection is still there.

What makes this safe is the order of things: `connectDestroyed` runs among the functors, when
the loop is done with its channels; it takes the channel out of the kernel before the last owner
is dropped; and a connection that is down never registers its channel again. -/
namespace ReMuduo

/-! ## The kernel has a channel only if its index says so -/

namespace Channel

def Indexed (ch : Channel) : Prop := ch.index ≠ .kAdded → ch.epoll = none

theorem indexed_updateChannel (ch : Channel) : ch.updateChannel.Indexed := by
  unfold updateChannel
  split
  · exact fun hne => absurd rfl hne
  · exact fun hne => absurd rfl hne
  · rename_i hindex
    split
    · exact fun _ => rfl
    · exact fun hne => absurd hindex hne

theorem Indexed.epoll_removeChannel {ch : Channel} (h : ch.Indexed) :
    ch.removeChannel.epoll = none := by
  simp only [Channel.removeChannel]
  split
  · rfl
  · rename_i hindex
    exact h hindex

theorem Indexed.removeChannel {ch : Channel} (h : ch.Indexed) : ch.removeChannel.Indexed :=
  fun _ => h.epoll_removeChannel

end Channel

/-! ## What the methods do to the channel -/

namespace TcpConnection

variable {c : TcpConnection} {r : TcpConnection × List Effect}

/-- The methods that user code calls look at `state_` first. -/
theorem Called.of_down (h : c.Called r) (hdown : c.state = .kDisconnected) : r.1 = c := by
  cases h with
  | send data w => simp [TcpConnection.send, hdown]
  | shutdown => simp [TcpConnection.shutdown, hdown]
  | forceClose => simp [TcpConnection.forceClose, hdown]
  | sendInLoop data w => simp [TcpConnection.sendInLoop, hdown]
  | shutdownInLoop => rfl
  | forceCloseInLoop => simp [TcpConnection.forceCloseInLoop, hdown]

theorem indexed_handleClose (c : TcpConnection) : c.handleClose.1.channel.Indexed :=
  Channel.indexed_updateChannel _

theorem indexed_sendRemaining (h : c.channel.Indexed) (rest : List UInt8) :
    (c.sendRemaining rest).1.channel.Indexed := by
  unfold sendRemaining
  split
  · dsimp only
    split
    · exact h
    · exact Channel.indexed_updateChannel _
  · exact h

theorem indexed_sendInLoop (h : c.channel.Indexed) (data : List UInt8) (w : WriteResult) :
    (c.sendInLoop data w).1.channel.Indexed := by
  unfold TcpConnection.sendInLoop
  split
  · exact h
  · split
    · split
      · exact indexed_sendRemaining (c := { c with written := c.written ++ data.take _ }) h _
      · split
        · exact h
        · exact indexed_sendRemaining h _
    · exact indexed_sendRemaining h _

theorem indexed_forceCloseInLoop (h : c.channel.Indexed) :
    c.forceCloseInLoop.1.channel.Indexed := by
  unfold TcpConnection.forceCloseInLoop
  split
  · exact indexed_handleClose c
  · exact h

theorem Called.indexed (h : c.Called r) (hc : c.channel.Indexed) : r.1.channel.Indexed := by
  cases h with
  | sendInLoop data w => exact indexed_sendInLoop hc data w
  | send data w =>
    unfold TcpConnection.send
    split
    · exact indexed_sendInLoop hc data w
    · exact hc
  | shutdown =>
    unfold TcpConnection.shutdown
    split
    · exact hc
    · exact hc
  | forceClose =>
    rw [forceClose_eq]
    exact indexed_forceCloseInLoop hc
  | shutdownInLoop => exact hc
  | forceCloseInLoop => exact indexed_forceCloseInLoop hc

theorem Serves.indexed (h : c.Serves r) (hc : c.channel.Indexed) : r.1.channel.Indexed := by
  cases h with
  | handleClose => exact indexed_handleClose c
  | handleRead received =>
    unfold TcpConnection.handleRead
    split
    · exact indexed_handleClose c
    · exact hc
    · exact hc
  | handleWrite w =>
    unfold TcpConnection.handleWrite
    split
    · split
      · dsimp only
        split
        · exact Channel.indexed_updateChannel _
        · exact hc
      · split
        · exact indexed_handleClose c
        · exact hc
    · exact hc

end TcpConnection

/-- The channel that a task is an event of. -/
def LoopTask.channel : LoopTask AfterCallback ServerFunctor → Option ActiveChannel
  | .callback channel _ => some channel
  | .handleEvent channel _ => some channel
  | _ => none

namespace ServerLoops

variable {ℓ : Type} [DecidableEq ℓ] {cfg : ServerConfig ℓ} {s s' : ServerLoops ℓ} {l : ℓ}
  {c d : ConnId} {task : ServerTask} {rest : List ServerTask} {e : ServerEvent ℓ}

omit [DecidableEq ℓ] in
/-- A deed changes one connection. -/
theorem Fits.becomes {w : Deed ℓ} (hw : Fits cfg s l d task w) (c : ConnId) :
    Becomes (s.conns c) c s.nextConnId task (Function.update s.conns d w.conn c) := by
  by_cases hc : c = d
  · subst hc
    rw [Function.update_self]
    exact hw.conn
  · rw [Function.update_of_ne hc]
    exact .same

theorem Change.becomes (h : Change cfg s l task s') (c : ConnId) :
    Becomes (s.conns c) c s.nextConnId task (s'.conns c) := by
  cases h with
  | perform d w htask hw => exact hw.becomes c
  | accept io w htask hw => exact hw.becomes c
  | remove d w htask hw => exact hw.becomes c
  | handleEvent | doPendingFunctors | refuse => exact .same

/-- **What a step does to a connection.**  Only the handlers of an event that the loop has come
to, `connectEstablished`, `connectDestroyed` and the methods that look at `state_` first change
it. -/
theorem Turn.becomes {op : ServerOp ℓ} (h : Turn cfg s op s') (c : ConnId) :
    ∃ task : ServerTask, (task = .user ∨ ∃ l rest, (s.loops l).agenda = task :: rest) ∧
      Becomes (s.conns c) c s.nextConnId task (s'.conns c) := by
  cases h with
  | poll | ret => exact ⟨.user, .inl rfl, .same⟩
  | call op hop l s' h => exact ⟨.user, .inl rfl, h.becomes c⟩
  | task l task rest e s' hagenda hdone h => exact ⟨task, .inr ⟨l, rest, hagenda⟩, h.becomes c⟩

theorem Becomes.indexed {conn conn' : TcpConnection} {next : ConnId}
    (h : Becomes conn c next task conn') (hconn : conn.channel.Indexed) :
    conn'.channel.Indexed := by
  cases h with
  | same => exact hconn
  | accepted _ o => exact fun _ => rfl
  | acceptedHere | established => exact Channel.indexed_updateChannel _
  | served _ _ _ hserves => exact hserves.indexed hconn
  | called _ hcalled => exact hcalled.indexed hconn
  | setDisconnecting => exact hconn
  | disabled =>
    unfold TcpConnection.connectDestroyed
    split
    · exact Channel.indexed_updateChannel _
    · exact hconn
  | removed => exact hconn.removeChannel

/-! ## Events that are before the loops -/

/-- Loop `l` has an event of the channel before it. -/
def ActiveOn (s : ServerLoops ℓ) (l : ℓ) (channel : ActiveChannel) : Prop :=
  ∃ task ∈ (s.loops l).agenda, task.channel = some channel

/-- A loop has an event of the channel before it. -/
def Active (s : ServerLoops ℓ) (channel : ActiveChannel) : Prop := ∃ l, s.ActiveOn l channel

/-- The channel of `c` has been removed, and nothing of `connectDestroyed` is left. -/
def Released (s : ServerLoops ℓ) (c : ConnId) : Prop := .removeChannel false ∈ s.life c

/-- What a loop has before it after a change of its own. -/
theorem activeOn_onLoop {f : ServerThread → ServerThread} {l' : ℓ} {channel : ActiveChannel}
    (h : (s.onLoop l f).ActiveOn l' channel) :
    s.ActiveOn l' channel ∨ l' = l ∧ ∃ x ∈ (f (s.loops l)).agenda, x.channel = some channel := by
  obtain ⟨x, hx, hchannel⟩ := h
  by_cases hl : l' = l
  · subst hl
    simp only [onLoop, Function.update_self] at hx
    exact .inr ⟨rfl, x, hx, hchannel⟩
  · simp only [onLoop, Function.update_of_ne hl] at hx
    exact .inl ⟨x, hx, hchannel⟩

theorem activeOn_of_take {l' : ℓ} {channel : ActiveChannel}
    (hagenda : (s.loops l).agenda = task :: rest) (h : (s.take l rest).ActiveOn l' channel) :
    s.ActiveOn l' channel := by
  rcases activeOn_onLoop h with h | ⟨rfl, x, hx, hchannel⟩
  · exact h
  · exact ⟨x, hagenda ▸ List.mem_cons_of_mem _ hx, hchannel⟩

omit [DecidableEq ℓ] in
theorem Fits.activeOn {w : Deed ℓ} (hw : Fits cfg s l c task w) {l' : ℓ} {channel : ActiveChannel}
    (h : (s.perform c w).ActiveOn l' channel) : s.ActiveOn l' channel := by
  obtain ⟨x, hx, hchannel⟩ := h
  rcases List.mem_append.mp hx with hx | hx
  · cases hw.tasks l' x hx <;> cases hchannel
  · exact ⟨x, hx, hchannel⟩

/-- The events of a channel come from `handleEvent`. -/
theorem Change.activeOn (h : Change cfg s l task s') {l' : ℓ} {channel : ActiveChannel}
    (hactive : s'.ActiveOn l' channel) :
    s.ActiveOn l' channel ∨ l' = l ∧ task.channel = some channel := by
  cases h with
  | perform d w htask hw => exact .inl (hw.activeOn hactive)
  | accept io w htask hw => exact .inl (hw.activeOn hactive)
  | remove d w htask hw => exact .inl (hw.activeOn hactive)
  | refuse => exact .inl hactive
  | handleEvent channel' revents htask =>
    rcases activeOn_onLoop hactive with h | ⟨rfl, x, hx, hchannel⟩
    · exact .inl h
    · rcases List.mem_append.mp hx with hx | hx
      · obtain ⟨cb, rfl⟩ := LoopThread.mem_eventTasks hx
        exact .inr ⟨rfl, htask ▸ hchannel⟩
      · exact .inl ⟨x, hx, hchannel⟩
  | doPendingFunctors htask =>
    rcases activeOn_onLoop hactive with h | ⟨rfl, x, hx, hchannel⟩
    · exact .inl h
    · rcases List.mem_append.mp hx with hx | hx
      · obtain ⟨f, -, rfl⟩ := List.mem_map.mp hx
        cases hchannel
      · exact .inl ⟨x, hx, hchannel⟩

/-- **Channels become active by `poll`.** -/
theorem Turn.activeOn {op : ServerOp ℓ} (h : Turn cfg s op s') {l : ℓ} {channel : ActiveChannel}
    (hactive : s'.ActiveOn l channel) :
    s.ActiveOn l channel ∨ s.Registered cfg l channel ∧
      ∃ batch, op = .loop l (.poll batch) ∧ ∃ p ∈ batch, p.1 = channel := by
  cases h with
  | poll l' batch hagenda hregistered =>
    rcases activeOn_onLoop hactive with h | ⟨rfl, x, hx, hchannel⟩
    · exact .inl h
    · rcases List.mem_append.mp hx with hx | hx
      · rcases List.mem_append.mp hx with hx | hx
        · obtain ⟨p, hp, rfl⟩ := List.mem_map.mp hx
          obtain rfl := Option.some.inj hchannel
          exact .inr ⟨hregistered p hp, batch, rfl, p, hp, rfl⟩
        · rw [List.mem_singleton.mp hx] at hchannel
          cases hchannel
      · exact .inl ⟨x, hx, hchannel⟩
  | call op hop l' s' h =>
    rcases h.activeOn hactive with h | ⟨-, htask⟩
    · exact .inl h
    · cases htask
  | ret l' rest hagenda => exact .inl (activeOn_of_take hagenda hactive)
  | task l' task rest e s' hagenda hdone h =>
    rcases h.activeOn hactive with h | ⟨rfl, htask⟩
    · exact .inl (activeOn_of_take hagenda h)
    · exact .inl ⟨task, hagenda ▸ List.mem_cons_self, htask⟩

omit [DecidableEq ℓ] in
theorem Fits.released {w : Deed ℓ} (hw : Fits cfg s l d task w)
    (h : (s.perform d w).Released c) : s.Released c ∨ Unregisters c task := by
  by_cases hc : c = d
  · subst hc
    simp only [Released, perform, Function.update_self] at h
    refine (List.mem_append.mp h).imp_right fun hmem => ?_
    cases hw.notes _ hmem with
    | removeChannel htask => exact htask
  · simp only [Released, perform, Function.update_of_ne hc] at h
    exact .inl h

theorem Change.released (h : Change cfg s l task s') (hreleased : s'.Released c) :
    s.Released c ∨ Unregisters c task := by
  cases h with
  | perform d w htask hw => exact hw.released hreleased
  | accept io w htask hw => exact hw.released hreleased
  | remove d w htask hw => exact hw.released hreleased
  | handleEvent | doPendingFunctors => exact .inl hreleased
  | refuse d htask =>
    refine .inl ?_
    by_cases hc : c = d
    · subst hc
      simpa [Released, note] using hreleased
    · simpa [Released, note, hc] using hreleased

/-- A loop has come to what is left of `connectDestroyed`. -/
def Destroys (s s' : ServerLoops ℓ) (cfg : ServerConfig ℓ) (c : ConnId) : Prop :=
  ∃ l task rest e, (s.loops l).agenda = task :: rest ∧ Unregisters c task ∧
    Done cfg (s.take l rest) l task e s'

/-- **Channels are released by `connectDestroyed`.** -/
theorem Turn.released {op : ServerOp ℓ} (h : Turn cfg s op s') (hreleased : s'.Released c) :
    s.Released c ∨ Destroys s s' cfg c := by
  cases h with
  | poll | ret => exact .inl hreleased
  | call op hop l s' h =>
    exact (h.released hreleased).imp_right fun htask => by rcases htask with h | h <;> cases h
  | task l task rest e s' hagenda hdone h =>
    exact (h.released hreleased).imp_right fun htask => ⟨l, task, rest, e, hagenda, htask, hdone⟩

/-! ## Released channels stay away -/

/-- Nothing refers to the channel, and nothing will register it again. -/
structure Gone (s : ServerLoops ℓ) (c : ConnId) : Prop where
  down : (s.conns c).state = .kDisconnected
  epoll : (s.conns c).channel.epoll = none
  inactive : ¬s.Active (.conn c)

/-- What is known of the state, besides that it is sound. -/
structure Settled (s : ServerLoops ℓ) : Prop where
  indexed : ∀ c, (s.conns c).channel.Indexed
  gone : ∀ c, s.Released c → s.Gone c

omit [DecidableEq ℓ] in
theorem mem_items_of_channel (hx : task ∈ (s.loops l).agenda)
    (hchannel : task.channel = some (.conn c)) : .event ∈ (s.view cfg c).items l := by
  have habout : task.about = some (c, .event) := by
    cases task with
    | callback channel | handleEvent channel =>
      cases hchannel
      rfl
    | user | resume | doPendingFunctors | functor => cases hchannel
  refine List.mem_append_left _ (List.mem_flatMap.mpr ⟨task, hx, ?_⟩)
  rw [habout, Item.of_self]
  exact List.mem_cons_self

/-- While a loop runs `connectDestroyed`, it is done with its channels. -/
theorem Sound.inactive_of_destroys (hs : s.Sound cfg) (h : Destroys s s' cfg c) :
    ¬s.Active (.conn c) := by
  obtain ⟨l, task, rest, e, hagenda, htask, -⟩ := h
  have hl : l = s.loopOf c := by
    rcases htask with rfl | rfl
    · exact hs.place hagenda (c := c) (i := .destroy) rfl
    · exact hs.place hagenda (c := c) (i := .unregister) rfl
  rintro ⟨l', x, hx, hchannel⟩
  have hitem : .event ∈ (s.view cfg c).items l' := mem_items_of_channel hx hchannel
  obtain rfl : l' = s.loopOf c := (hs.sane c).place l' _ hitem
  subst hl
  -- the loop is in its second phase, where no task is an event
  have hin : ∀ x ∈ (s.loops (s.loopOf c)).agenda, x.inFunctors = true := by
    rcases (hs.shaped _).cons_cases hagenda with ⟨rfl, -⟩ | ⟨hno, -⟩ | ⟨hfirst, -, hrest⟩
    · rcases htask with h | h <;> cases h
    · rcases htask with rfl | rfl <;> cases hno
    · rw [hagenda]
      exact List.forall_mem_cons.mpr ⟨hfirst, hrest⟩
  have hx := hin x hx
  cases x with
  | callback channel | handleEvent channel => cases hx
  | user | resume | doPendingFunctors | functor => cases hchannel

/-- `connectDestroyed` finds a connection that is down, and its `remove` is not refused. -/
theorem Sound.gone_of_destroys (hs : s.Sound cfg) (hindexed : (s.conns c).channel.Indexed)
    (h : Destroys s s' cfg c) : s'.Gone c := by
  have hinactive := hs.inactive_of_destroys h
  obtain ⟨l, task, rest, e, hagenda, htask, hdone⟩ := h
  have hleaves : ∀ t : ServerLoops ℓ, t.loops = (s.take l rest).loops → ¬t.Active (.conn c) := by
    rintro t ht ⟨l', hactive⟩
    rw [ActiveOn, ht] at hactive
    exact hinactive ⟨l', activeOn_of_take hagenda hactive⟩
  rcases htask with rfl | rfl
  · have hdown : (s.conns c).state = .kDisconnected :=
      (hs.sane c).down l _ (mem_items_of_agenda cfg hagenda rfl) rfl
    cases hdone
    rw [connectDestroyed_eq l c (by simp [take, onLoop, hdown]) (hs.inactive hagenda rfl rfl)]
    exact ⟨by simpa [note, setConn, take, onLoop] using hdown,
      by simpa [note, setConn, take, onLoop] using hindexed.epoll_removeChannel,
      hleaves _ rfl⟩
  · have hdown : (s.conns c).state = .kDisconnected :=
      (hs.sane c).down l _ (mem_items_of_agenda cfg hagenda rfl) rfl
    cases hdone
    rw [removeChannel_eq l c (hs.inactive hagenda rfl rfl)]
    exact ⟨by simpa [note, setConn, take, onLoop] using hdown,
      by simpa [note, setConn, take, onLoop] using hindexed.epoll_removeChannel,
      hleaves _ rfl⟩

/-- A step other than `connectDestroyed` leaves a released channel alone. -/
theorem Gone.of_becomes (hs : s.Sound cfg) (hgone : s.Gone c) (hreleased : s.Released c)
    {conn : TcpConnection}
    (htask : task = .user ∨ ∃ l rest, (s.loops l).agenda = task :: rest)
    (h : Becomes (s.conns c) c s.nextConnId task conn) :
    conn.state = .kDisconnected ∧ conn.channel.epoll = none := by
  have hborn : c ≠ s.nextConnId := by
    rintro rfl
    have hlife : s.life s.nextConnId = [] :=
      congrArg ConnView.life (hs.unborn _ (Nat.le_refl _))
    rw [Released, hlife] at hreleased
    cases hreleased
  cases h with
  | same => exact ⟨hgone.down, hgone.epoll⟩
  | accepted hc | acceptedHere hc => exact absurd hc hborn
  | established htask' =>
    subst htask'
    obtain ⟨l, rest, hagenda⟩ := htask.resolve_left nofun
    have hstate := ((hs.sane c).establish l (mem_items_of_agenda cfg hagenda rfl)).1
    cases hgone.down.symm.trans hstate
  | served cb htask' =>
    subst htask'
    obtain ⟨l, rest, hagenda⟩ := htask.resolve_left nofun
    exact absurd ⟨l, _, hagenda ▸ List.mem_cons_self, rfl⟩ hgone.inactive
  | called _ hcalled =>
    rw [hcalled.of_down hgone.down]
    exact ⟨hgone.down, hgone.epoll⟩
  | setDisconnecting hup => rcases hup with hup | hup <;> cases hgone.down.symm.trans hup
  | disabled =>
    rw [TcpConnection.connectDestroyed, if_neg (by simp [hgone.down])]
    exact ⟨hgone.down, hgone.epoll⟩
  | removed => exact ⟨hgone.down, Channel.epoll_removeChannel hgone.epoll⟩

theorem Turn.settled {op : ServerOp ℓ} (hs : s.Sound cfg) (hsettled : s.Settled)
    (h : Turn cfg s op s') : s'.Settled := by
  refine ⟨fun c => ?_, fun c hreleased => ?_⟩
  · obtain ⟨task, -, hbecomes⟩ := h.becomes c
    exact hbecomes.indexed (hsettled.indexed c)
  · rcases h.released hreleased with hbefore | hdestroys
    · have hgone := hsettled.gone c hbefore
      obtain ⟨task, htask, hbecomes⟩ := h.becomes c
      obtain ⟨hdown, hnone⟩ := hgone.of_becomes hs hbefore htask hbecomes
      refine ⟨hdown, hnone, ?_⟩
      rintro ⟨l, hactive⟩
      rcases h.activeOn hactive with hactive | ⟨hregistered, -⟩
      · exact hgone.inactive ⟨l, hactive⟩
      · -- the kernel does not report a channel that it does not have
        exact absurd hregistered.2 (by simp [hgone.epoll])
    · exact hs.gone_of_destroys (hsettled.indexed c) hdestroys

omit [DecidableEq ℓ] in
theorem initial_settled (cfg : ServerConfig ℓ) : (initial cfg).Settled :=
  ⟨fun _ _ => rfl, fun _ hreleased => absurd hreleased List.not_mem_nil⟩

theorem settled_of_run {ops : List (ServerOp ℓ)}
    (hrun : Machine.run (step cfg) (initial cfg) ops = some s) (hassert : s.assertFailed = false) :
    s.Settled :=
  (Machine.run_invariant
    (P := fun t : ServerLoops ℓ => t.assertFailed = false → t.Sound cfg ∧ t.Settled)
    (fun _ _ _ hs h hassert' =>
      have hbefore := hs (step_cases h).1
      ⟨sound_of_step (fun _ => hbefore.1) h hassert',
        (step_cases h).2.turn.settled hbefore.1 hbefore.2⟩)
    hrun (fun _ => ⟨initial_sound cfg, initial_settled cfg⟩) hassert).2

end ServerLoops

/-! ## Who owns a connection -/

/-- What keeps the connection alive until it has run. -/
def Item.owns : Item → Bool
  | .remove | .destroy | .unregister => true
  | _ => false

namespace ConnView

variable {ℓ : Type} [DecidableEq ℓ] {base : ℓ} {v v' : ConnView ℓ}

/-- `connections_` has the connection, or something that is queued does. -/
def Owned (v : ConnView ℓ) : Prop :=
  v.entry = true ∨ ∃ l, ∃ i ∈ v.items l, i.owns = true

omit [DecidableEq ℓ] in
theorem Owned.mono (h : v.Owned) (hentry : v.entry = true → v'.entry = true)
    (hitems : ∀ l, ∀ i ∈ v.items l, i.owns = true → i ∈ v'.items l) : v'.Owned := by
  rcases h with h | ⟨l, i, hi, howns⟩
  · exact .inl (hentry h)
  · exact .inr ⟨l, i, hitems l i hi howns, howns⟩

/-- Taking an item that does not own the connection. -/
theorem mem_set_of_owns {i j : Item} {l l' : ℓ} {rest : List Item} (hrest : v.items l = j :: rest)
    (hj : j.owns = false) (hi : i ∈ v.items l') (howns : i.owns = true) :
    i ∈ (v.set l rest).items l' := by
  by_cases hl : l' = l
  · subst hl
    rw [set_items_self]
    rw [hrest] at hi
    rcases List.mem_cons.mp hi with rfl | hi
    · cases hj.symm.trans howns
    · exact hi
  · simpa [set, hl] using hi

/-- The connection has not been accepted yet, its channel has been released, or somebody owns
it. -/
def Held (v : ConnView ℓ) : Prop :=
  (v.state = .kConnecting ∧ ∀ l, v.items l = []) ∨ .removeChannel false ∈ v.life ∨ v.Owned

/-- Nothing but `accept` happens to a connection that has not been accepted. -/
theorem Small.held_of_new (hstate : v.state = .kConnecting) (hitems : ∀ l, v.items l = [])
    (h : Small base v v') : v'.Held := by
  cases h with
  | accept io => exact .inr (.inr (.inl rfl))
  | establish _ hi | pop hi _ | closed hi | destroy _ _ hi | unregister _ hi =>
    rw [hitems] at hi
    cases hi
  | method _ _ hno | events _ hno | close _ hno => exact absurd hstate hno
  | post hup => rcases hup with hup | hup <;> cases hstate.symm.trans hup
  | remove hi =>
    rw [hitems] at hi
    exact absurd hi.symm (by simp)

/-- Only `channel_->remove()` may drop the last owner. -/
theorem Small.held_of_owned (howned : v.Owned) (h : Small base v v') : v'.Held := by
  cases h with
  | accept io => exact .inr (.inr (.inl rfl))
  | establish _ hi =>
    exact .inr (.inr (howned.mono id fun l i hmem howns => mem_set_of_owns hi rfl hmem howns))
  | method => exact .inr (.inr (howned.mono id fun l i hmem _ => hmem))
  | post =>
    refine .inr (.inr (howned.mono id fun l i hmem _ => ?_))
    by_cases hl : l = v.loop
    · subst hl
      rw [add_items_self]
      exact List.mem_append_left _ hmem
    · simpa [add, set, hl] using hmem
  | pop hi hkind =>
    refine .inr (.inr (howned.mono id fun l i hmem howns => mem_set_of_owns hi ?_ hmem howns))
    rcases hkind with rfl | rfl <;> rfl
  | events n =>
    refine .inr (.inr (howned.mono id fun l i hmem _ => ?_))
    by_cases hl : l = v.loop
    · subst hl
      rw [set_items_self]
      exact List.mem_append_right _ hmem
    · simpa [set, hl] using hmem
  | close =>
    refine .inr (.inr (howned.mono id fun l i hmem _ => ?_))
    by_cases hl : l = v.loop
    · subst hl
      simpa [set] using Or.inr hmem
    · simpa [set, hl] using hmem
  | closed => exact .inr (.inr (.inr ⟨base, .remove, by rw [add_items_self]; simp, rfl⟩))
  | remove => exact .inr (.inr (.inr ⟨v.loop, .destroy, by rw [add_items_self]; simp, rfl⟩))
  | destroy => exact .inr (.inr (.inr ⟨v.loop, .unregister, by simp [set], rfl⟩))
  | unregister => exact .inr (.inl (List.mem_append_right _ List.mem_cons_self))

theorem Small.held (hv : v.Held) (h : Small base v v') : v'.Held := by
  rcases hv with ⟨hstate, hitems⟩ | hreleased | howned
  · exact h.held_of_new hstate hitems
  · cases h with
    | accept io hlife =>
      rw [hlife] at hreleased
      cases hreleased
    | method | post | pop | events | closed => exact .inr (.inl hreleased)
    | establish | close | remove | destroy | unregister =>
      exact .inr (.inl (List.mem_append_left _ hreleased))
  · exact h.held_of_owned howned

theorem Changes.held (hv : v.Held) (h : Changes base v v') : v'.Held := by
  induction h with
  | refl => exact hv
  | tail _ hsmall ih => exact hsmall.held ih

end ConnView

namespace ServerLoops

variable {ℓ : Type} [DecidableEq ℓ] {cfg : ServerConfig ℓ} {s s' : ServerLoops ℓ} {l : ℓ}
  {c : ConnId}

theorem held_of_run {ops : List (ServerOp ℓ)}
    (hrun : Machine.run (step cfg) (initial cfg) ops = some s) (hassert : s.assertFailed = false)
    (c : ConnId) : (s.view cfg c).Held := by
  refine (Machine.run_invariant (P := fun t : ServerLoops ℓ => t.assertFailed = false →
      t.Sound cfg ∧ ∀ c, (t.view cfg c).Held) (fun t _ t' hs h hassert' => ?_) hrun
    (fun _ => ⟨initial_sound cfg, fun c => .inl ⟨rfl, fun _ => rfl⟩⟩) hassert).2 c
  obtain ⟨hassert, hstep⟩ := step_cases h
  obtain ⟨hsound, hheld⟩ := hs hassert
  refine ⟨sound_of_step (fun _ => hsound) h hassert', fun c => ?_⟩
  rcases hstep.moves hsound with hmoves | ⟨d, hrefused⟩
  · rcases hmoves.views c with hview | ⟨-, hchanges⟩
    · rw [hview]
      exact hheld c
    · exact hchanges.held (hheld c)
  · cases hassert'.symm.trans hrefused.failed

omit [DecidableEq ℓ] in
theorem owned_of_queued {f : ServerFunctor} {i : Item} (h : s.Queued l f)
    (habout : f.about = some (c, i)) (howns : i.owns = true) : s.Owned cfg c := by
  cases f with
  | removeConnectionInLoop d =>
    cases habout
    exact .removeConnectionInLoop l h
  | connectDestroyed d =>
    cases habout
    exact .connectDestroyed l h
  | connectEstablished | raw =>
    cases habout
    cases howns
  | user => cases habout

omit [DecidableEq ℓ] in
/-- What the owners of a view are in the server. -/
theorem owned_of_view (h : (s.view cfg c).Owned) : s.Owned cfg c := by
  rcases h with hentry | ⟨l, i, hi, howns⟩
  · exact .entry (beq_iff_eq.mp hentry)
  · rcases List.mem_append.mp hi with hi | hi
    · obtain ⟨x, hx, hi⟩ := List.mem_flatMap.mp hi
      have habout := Item.mem_of hi
      cases x with
      | user | doPendingFunctors => cases habout
      | resume after =>
        cases after with
        | closing d =>
          cases habout
          cases howns
        | destroying d =>
          cases habout
          exact .destroying l hx
      | callback channel | handleEvent channel =>
        cases channel <;> cases habout
        cases howns
      | functor f => exact owned_of_queued (.inr hx) habout howns
    · obtain ⟨f, hf, hi⟩ := List.mem_flatMap.mp hi
      exact owned_of_queued (.inl hf) (Item.mem_of hi) howns

/-- The kernel or a loop has a pointer to the channel of `c`. -/
def Pointed (s : ServerLoops ℓ) (c : ConnId) : Prop :=
  (s.conns c).channel.epoll.isSome ∨ s.Active (.conn c)

/-- **Pointers to channels are pointers into connections that somebody owns.**  For any number of
loops and every interleaving of their steps with calls from other threads, each of which tests,
stores and posts in one step: as long as the kernel may report the channel of a connection, or a
loop still has an event of it before it, `connections_` or something that is queued keeps the
connection alive. -/
theorem channel_pointers_owned (cfg : ServerConfig ℓ) (ops : List (ServerOp ℓ))
    (hrun : Machine.run (step cfg) (initial cfg) ops = some s) (hassert : s.assertFailed = false)
    (c : ConnId) (hpointed : s.Pointed c) : s.Owned cfg c := by
  have hs := sound_of_run hrun hassert
  have hsettled := settled_of_run hrun hassert
  rcases held_of_run hrun hassert c with ⟨hstate, hitems⟩ | hreleased | howned
  · rcases hpointed with hepoll | ⟨l, x, hx, hchannel⟩
    · exact absurd hepoll (Bool.eq_false_iff.mp ((hs.sane c).fresh hstate).1)
    · have hitem : .event ∈ (s.view cfg c).items l := mem_items_of_channel hx hchannel
      rw [hitems] at hitem
      cases hitem
  · have hgone := hsettled.gone c hreleased
    rcases hpointed with hepoll | hactive
    · rw [hgone.epoll] at hepoll
      cases hepoll
    · exact absurd hactive hgone.inactive
  · exact owned_of_view howned

/-- Two connections are active at once, and the message callback of the first closes the second,
which the base loop removes before its own loop comes to its event. -/
def closedByNeighbour : List (ServerOp Bool) :=
  let readable : Revents := ⟨true, false, false, false, false, false⟩
  [.loop false (.poll [(.acceptor, readable)]), .loop false .next,
    .loop false (.accept (true, ⟨false, false, 1024⟩)), .loop false .next,
    .loop false (.poll [(.acceptor, readable)]), .loop false .next,
    .loop false (.accept (true, ⟨false, false, 1024⟩)), .loop false .next,
    .loop true (.poll []), .loop true .next, .loop true .next, .loop true .ret,
    .loop true .next, .loop true .ret,
    .loop true (.poll [(.conn 1, readable), (.conn 2, readable)]), .loop true .next,
    .loop true (.read (.ok [7])), .loop true (.call (.method .forceClose 2 ⟨none, 0⟩)),
    .loop true .ret, .loop true .next,
    .loop false (.poll []), .loop false .next, .loop false .next, .loop true .ret]

/-- The loop is about to handle an event of a connection that has been removed, and the functor
that will destroy it keeps it alive. -/
theorem channel_pointers_owned_closedByNeighbour :
    ∃ s : ServerLoops Bool,
      Machine.run (step twoLoops) (initial twoLoops) closedByNeighbour = some s ∧
      (s.loops true).agenda =
        [.handleEvent (.conn 2) ⟨true, false, false, false, false, false⟩, .doPendingFunctors] ∧
      s.connections (twoLoops.connName 2) = none ∧ s.Owned twoLoops 2 := by
  have hrun : (Machine.run (step twoLoops) (initial twoLoops) closedByNeighbour).map
      (fun s => ((s.loops true).agenda, s.connections (twoLoops.connName 2), s.assertFailed)) =
      some ([.handleEvent (.conn 2) ⟨true, false, false, false, false, false⟩,
        .doPendingFunctors], none, false) := by
    rfl
  obtain ⟨s, hs, hview⟩ := Option.map_eq_some_iff.mp hrun
  simp only [Prod.mk.injEq] at hview
  obtain ⟨hagenda, hnone, hassert⟩ := hview
  refine ⟨s, hs, hagenda, hnone, ?_⟩
  exact channel_pointers_owned twoLoops closedByNeighbour hs hassert 2
    (.inr ⟨true, _, hagenda ▸ List.mem_cons_self, rfl⟩)

end ServerLoops
end ReMuduo
