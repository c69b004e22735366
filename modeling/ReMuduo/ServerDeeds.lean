import ReMuduo.ServerLoops

/-! # What the methods of a server do

A method that runs for a connection changes this connection, notes what has happened to it, and
gives the loops something to do.  That is its `Deed`, and every method is the performance of one
(`after_perform` and the lemmas that follow it); `newConnection` and `removeConnectionInLoop`
change the members of the server first.

What the deeds of a step can be is said once (`Fits`, `Change`): whatever is to be proved of all
methods is proved of a `Change`, and holds of every step by `Step.turn`. -/
namespace ReMuduo

/-- Something for one loop, and nothing for the others. -/
def onlyOn {ℓ α : Type} [DecidableEq ℓ] (l : ℓ) (xs : List α) : ℓ → List α :=
  fun l' => if l' = l then xs else []

theorem mem_onlyOn {ℓ α : Type} [DecidableEq ℓ] {l l' : ℓ} {xs : List α} {x : α} :
    x ∈ onlyOn l xs l' ↔ l' = l ∧ x ∈ xs := by
  unfold onlyOn
  split_ifs with hl <;> simp [hl]

@[simp] theorem onlyOn_nil {ℓ α : Type} [DecidableEq ℓ] (l : ℓ) :
    onlyOn l ([] : List α) = fun _ => [] := by
  funext l'
  simp [onlyOn]

/-- What a method does for a connection. -/
structure Deed (ℓ : Type) where
  conn : TcpConnection
  notes : List (LifeEvent ℓ)
  /-- These are put before the tasks of a loop. -/
  tasks : ℓ → List ServerTask
  /-- These are put behind the functors of a loop. -/
  functors : ℓ → List ServerFunctor

namespace ServerLoops

variable {ℓ : Type}

def perform (s : ServerLoops ℓ) (c : ConnId) (w : Deed ℓ) : ServerLoops ℓ :=
  { s with
    conns := Function.update s.conns c w.conn
    life := Function.update s.life c (s.life c ++ w.notes)
    loops := fun l =>
      { s.loops l with
        pendingFunctors := (s.loops l).pendingFunctors ++ w.functors l
        agenda := w.tasks l ++ (s.loops l).agenda } }

/-- Nothing is done. -/
def idle (s : ServerLoops ℓ) (c : ConnId) : Deed ℓ where
  conn := s.conns c
  notes := []
  tasks := fun _ => []
  functors := fun _ => []

variable {s : ServerLoops ℓ} {l : ℓ} {c : ConnId} {w : Deed ℓ}

theorem perform_idle (s : ServerLoops ℓ) (c : ConnId) : s.perform c (s.idle c) = s := by
  ext <;> simp [perform, idle]

theorem perform_setConn (conn : TcpConnection) :
    (s.perform c w).setConn c conn = s.perform c { w with conn := conn } := by
  ext <;> simp [perform, setConn]

theorem perform_note (e : LifeEvent ℓ) :
    (s.perform c w).note c e = s.perform c { w with notes := w.notes ++ [e] } := by
  ext <;> simp [perform, note]

theorem note_then_perform (e : LifeEvent ℓ) :
    (s.note c e).perform c w = s.perform c { w with notes := e :: w.notes } := by
  ext <;> simp [perform, note]

variable [DecidableEq ℓ]

theorem perform_push (tasks : List ServerTask) :
    (s.perform c w).push l tasks =
      s.perform c { w with tasks := fun l' => onlyOn l tasks l' ++ w.tasks l' } := by
  refine ServerLoops.ext rfl rfl rfl rfl (funext fun l' => ?_) rfl rfl
  by_cases hl : l' = l
  · subst hl
    simp [perform, push, onLoop, LoopThread.push, onlyOn]
  · simp [perform, push, onLoop, onlyOn, hl]

/-- Functors that are queued on one loop. -/
theorem perform_queue (fs : List ServerFunctor) :
    (s.perform c w).onLoop l (fun t => { t with pendingFunctors := t.pendingFunctors ++ fs }) =
      s.perform c { w with functors := fun l' => w.functors l' ++ onlyOn l fs l' } := by
  refine ServerLoops.ext rfl rfl rfl rfl (funext fun l' => ?_) rfl rfl
  by_cases hl : l' = l
  · subst hl
    simp [perform, onLoop, onlyOn]
  · simp [perform, onLoop, onlyOn, hl]

/-! ## Every method is a deed -/

omit [DecidableEq ℓ] in
theorem setConn_perform (conn : TcpConnection) :
    s.setConn c conn = s.perform c { s.idle c with conn := conn } := by
  rw [← perform_setConn, perform_idle]

omit [DecidableEq ℓ] in
theorem note_perform (e : LifeEvent ℓ) :
    s.note c e = s.perform c { s.idle c with notes := [e] } := by
  have h := perform_note (s := s) (c := c) (w := s.idle c) e
  rwa [perform_idle] at h

theorem push_perform (c : ConnId) (tasks : List ServerTask) :
    s.push l tasks = s.perform c { s.idle c with tasks := onlyOn l tasks } := by
  have h := perform_push (s := s) (c := c) (w := s.idle c) (l := l) tasks
  rw [perform_idle] at h
  simpa [idle] using h

theorem post_perform (c : ConnId) (f : ServerFunctor) :
    s.post l f = s.perform c { s.idle c with functors := onlyOn l [f] } := by
  have h := perform_queue (s := s) (c := c) (w := s.idle c) (l := l) [f]
  rw [perform_idle] at h
  exact h.trans (by simp [idle])

theorem setConn_post_perform (conn : TcpConnection) (f : ServerFunctor) :
    (s.setConn c conn).post l f =
      s.perform c { s.idle c with conn := conn, functors := onlyOn l [f] } := by
  rw [setConn_perform]
  exact (perform_queue [f]).trans (by simp [idle])

/-- What a method of a connection does that has run on the thread of loop `l`. -/
def afterDeed (l : ℓ) (c : ConnId) (r : TcpConnection × List Effect) : Deed ℓ where
  conn := r.1
  notes := if .closeCallback ∈ r.2 then [.handleClose l] else []
  tasks := onlyOn l
    (if .closeCallback ∈ r.2 then [.user, .resume (.closing c)]
      else if .messageCallback ∈ r.2 then [.user] else [])
  functors := onlyOn l (queued r.2)

theorem after_perform (l : ℓ) (c : ConnId) (r : TcpConnection × List Effect) :
    s.after l c r = s.perform c (afterDeed l c r) := by
  have hstore : s.store l c r =
      s.perform c { s.idle c with conn := r.1, functors := onlyOn l (queued r.2) } := by
    rw [store, setConn_perform, perform_queue]
    simp [idle]
  unfold after afterDeed
  split_ifs
  · rw [hstore, perform_note, perform_push]
    simp [idle]
  · rw [hstore, perform_push]
    simp [idle]
  · rw [hstore]
    simp [idle]

theorem connectEstablished_perform (l : ℓ) (c : ConnId) :
    s.connectEstablished l c = s.perform c
      { s.idle c with
        conn := (s.conns c).connectEstablished.1
        notes := [.connectEstablished l]
        tasks := onlyOn l [.user] } := by
  rw [connectEstablished, setConn_perform, perform_note, perform_push]
  simp [idle]

def removeChannelDeed (s : ServerLoops ℓ) (l : ℓ) (c : ConnId) : Deed ℓ :=
  if (s.loops l).currentActiveChannel = some (.conn c) then
    { s.idle c with notes := [.removeChannel true] }
  else
    { s.idle c with
      conn := { s.conns c with channel := (s.conns c).channel.removeChannel }
      notes := [.removeChannel false] }

omit [DecidableEq ℓ] in
theorem removeChannel_perform (l : ℓ) (c : ConnId) :
    s.removeChannel l c = s.perform c (s.removeChannelDeed l c) := by
  unfold removeChannel removeChannelDeed
  split_ifs
  · exact note_perform _
  · rw [setConn_perform, perform_note]
    simp [idle]

def connectDestroyedDeed (s : ServerLoops ℓ) (l : ℓ) (c : ConnId) : Deed ℓ :=
  if (s.conns c).state = .kConnected then
    { s.idle c with
      conn := (s.conns c).connectDestroyed.1
      notes := [.connectDestroyed l (s.loops l).currentActiveChannel]
      tasks := onlyOn l [.user, .resume (.destroying c)] }
  else
    { s.removeChannelDeed l c with
      notes := .connectDestroyed l (s.loops l).currentActiveChannel ::
        (s.removeChannelDeed l c).notes }

theorem connectDestroyed_perform (l : ℓ) (c : ConnId) :
    s.connectDestroyed l c = s.perform c (s.connectDestroyedDeed l c) := by
  unfold connectDestroyed connectDestroyedDeed
  dsimp only
  split_ifs with hstate
  · rw [setConn_perform, perform_note, perform_push]
    simp [idle]
  · have hconn : (s.conns c).connectDestroyed.1 = s.conns c := by
      rw [TcpConnection.connectDestroyed, if_neg hstate]
    have hset : s.setConn c (s.conns c) = s := by simp [setConn]
    rw [hconn, hset, removeChannel_perform, note_then_perform]
    rfl

/-- The server gives the next number to a connection of loop `io`, and enters it. -/
def enlist (cfg : ServerConfig ℓ) (s : ServerLoops ℓ) (io : ℓ) : ServerLoops ℓ :=
  { s with
    loopOf := Function.update s.loopOf s.nextConnId io
    nextConnId := s.nextConnId + 1
    connections :=
      Function.update s.connections (cfg.connName s.nextConnId) (some s.nextConnId) }

/-- `connections_.erase`. -/
def erase (cfg : ServerConfig ℓ) (s : ServerLoops ℓ) (c : ConnId) : ServerLoops ℓ :=
  { s with connections := Function.update s.connections (cfg.connName c) none }

variable {cfg : ServerConfig ℓ}

omit [DecidableEq ℓ] in
theorem enter_perform (io : ℓ) (conn : TcpConnection) :
    s.enter cfg io conn = (s.enlist cfg io).perform s.nextConnId
      { s.idle s.nextConnId with conn := conn, notes := [.newConnection] } := by
  ext <;> simp [enter, enlist, perform, note, idle]

/-- What is done for a new connection; on the base loop, `connectEstablished` is called at once. -/
def newDeed (cfg : ServerConfig ℓ) (s : ServerLoops ℓ) (io : ℓ) (o : ConnOptions) : Deed ℓ :=
  if io = cfg.base then
    { s.idle s.nextConnId with
      conn := o.connection.connectEstablished.1
      notes := [.newConnection, .connectEstablished io]
      tasks := onlyOn io [.user] }
  else
    { s.idle s.nextConnId with
      conn := o.connection
      notes := [.newConnection]
      functors := onlyOn io [.connectEstablished s.nextConnId] }

theorem newConnection_perform (io : ℓ) (o : ConnOptions) :
    s.newConnection cfg io o.connection =
      (s.enlist cfg io).perform s.nextConnId (s.newDeed cfg io o) := by
  have hconn : (s.enter cfg io o.connection).conns s.nextConnId = o.connection := by
    simp [enter, note]
  unfold newConnection newDeed
  split_ifs
  · rw [connectEstablished, hconn, enter_perform, perform_setConn, perform_note, perform_push]
    simp [idle]
  · rw [enter_perform]
    exact (perform_queue [.connectEstablished s.nextConnId]).trans (by simp [idle])

def removeDeed (s : ServerLoops ℓ) (c : ConnId) : Deed ℓ :=
  { s.idle c with
    notes := [.removeConnectionInLoop 1]
    functors := onlyOn (s.loopOf c) [.connectDestroyed c] }

/-- `removeConnectionInLoop`, where `connections_.erase` returns 1. -/
theorem removeConnectionInLoop_perform
    (hentry : (s.connections (cfg.connName c)).isSome = true) :
    s.removeConnectionInLoop cfg c = (s.erase cfg c).perform c (s.removeDeed c) := by
  have hnote := note_perform (s := s.erase cfg c) (c := c) (.removeConnectionInLoop 1)
  have hpost := perform_queue (s := s.erase cfg c) (c := c) (l := s.loopOf c)
    (w := { s.idle c with notes := [.removeConnectionInLoop 1] }) [.connectDestroyed c]
  rw [removeConnectionInLoop, if_pos hentry]
  refine Eq.trans (congrArg (fun t => t.post (s.loopOf c) (.connectDestroyed c)) hnote)
    (hpost.trans ?_)
  simp [removeDeed, idle]

/-! ## What the deeds of a step can be

`task` is the task whose work the deed is, and `user` for a call of user code.  It is a task of
loop `l`, and the deed is for connection `c`. -/

/-- The task removes the connection. -/
def Removes (cfg : ServerConfig ℓ) (l : ℓ) (c : ConnId) (task : ServerTask) : Prop :=
  task = .resume (.closing c) ∧ l = cfg.base ∨ task = .functor (.removeConnectionInLoop c)

/-- The task is `connectDestroyed`, or the rest of it. -/
def Unregisters (c : ConnId) (task : ServerTask) : Prop :=
  task = .functor (.connectDestroyed c) ∨ task = .resume (.destroying c)

/-- What becomes of a connection, where `next` is the number of the next one. -/
inductive Becomes (conn : TcpConnection) (c next : ConnId) (task : ServerTask) :
    TcpConnection → Prop
  | same : Becomes conn c next task conn
  | accepted (hc : c = next) (o : ConnOptions) : Becomes conn c next task o.connection
  | acceptedHere (hc : c = next) (o : ConnOptions) :
      Becomes conn c next task o.connection.connectEstablished.1
  | established (htask : task = .functor (.connectEstablished c)) :
      Becomes conn c next task conn.connectEstablished.1
  | served (cb : ChannelCallback) (htask : task = .callback (.conn c) cb)
      (r : TcpConnection × List Effect) (h : conn.Serves r) : Becomes conn c next task r.1
  | called (r : TcpConnection × List Effect) (h : conn.Called r) : Becomes conn c next task r.1
  | setDisconnecting (h : conn.state = .kConnected ∨ conn.state = .kDisconnecting) :
      Becomes conn c next task { conn with state := .kDisconnecting }
  | disabled : Becomes conn c next task conn.connectDestroyed.1
  | removed : Becomes conn c next task { conn with channel := conn.channel.removeChannel }

/-- What is noted. -/
inductive Notes (cfg : ServerConfig ℓ) (l : ℓ) (c : ConnId) (task : ServerTask) :
    LifeEvent ℓ → Prop
  | newConnection : Notes cfg l c task .newConnection
  | connectEstablished (io : ℓ) : Notes cfg l c task (.connectEstablished io)
  | handleClose : Notes cfg l c task (.handleClose l)
  | removeConnectionInLoop (htask : Removes cfg l c task) :
      Notes cfg l c task (.removeConnectionInLoop 1)
  | connectDestroyed (htask : task = .functor (.connectDestroyed c))
      (active : Option ActiveChannel) : Notes cfg l c task (.connectDestroyed l active)
  | removeChannel (htask : Unregisters c task) (refused : Bool) :
      Notes cfg l c task (.removeChannel refused)

/-- Which tasks a loop gets. -/
inductive Starts (l : ℓ) (c : ConnId) (task : ServerTask) : ℓ → ServerTask → Prop
  | user (l' : ℓ) : Starts l c task l' .user
  | closing : Starts l c task l (.resume (.closing c))
  | destroying (htask : task = .functor (.connectDestroyed c)) :
      Starts l c task l (.resume (.destroying c))

/-- Which functors a loop gets. -/
inductive Posts (cfg : ServerConfig ℓ) (l : ℓ) (c : ConnId) (task : ServerTask) :
    ℓ → ServerFunctor → Prop
  | user (l' : ℓ) : Posts cfg l c task l' .user
  | raw (l' : ℓ) (f : ConnectionFunctor) : Posts cfg l c task l' (.raw c f)
  | connectEstablished (io : ℓ) : Posts cfg l c task io (.connectEstablished c)
  | removeConnectionInLoop : Posts cfg l c task cfg.base (.removeConnectionInLoop c)
  | connectDestroyed (htask : Removes cfg l c task) (l' : ℓ) :
      Posts cfg l c task l' (.connectDestroyed c)

structure Fits (cfg : ServerConfig ℓ) (s : ServerLoops ℓ) (l : ℓ) (c : ConnId) (task : ServerTask)
    (w : Deed ℓ) : Prop where
  conn : Becomes (s.conns c) c s.nextConnId task w.conn
  notes : ∀ e ∈ w.notes, Notes cfg l c task e
  tasks : ∀ l', ∀ x ∈ w.tasks l', Starts l c task l' x
  functors : ∀ l', ∀ f ∈ w.functors l', Posts cfg l c task l' f

/-- **What a task, or a call of user code, does.** -/
inductive Change (cfg : ServerConfig ℓ) (s : ServerLoops ℓ) (l : ℓ) (task : ServerTask) :
    ServerLoops ℓ → Prop
  | perform (c : ConnId) (w : Deed ℓ) (htask : task ≠ .doPendingFunctors)
      (hw : Fits cfg s l c task w) : Change cfg s l task (s.perform c w)
  | handleEvent (channel : ActiveChannel) (revents : Revents)
      (htask : task = .handleEvent channel revents) :
      Change cfg s l task (s.onLoop l (·.handleEvent channel revents))
  | doPendingFunctors (htask : task = .doPendingFunctors) :
      Change cfg s l task (s.onLoop l (·.doPendingFunctors))
  | accept (io : ℓ) (w : Deed ℓ) (htask : task = .callback .acceptor .read)
      (hw : Fits cfg s l s.nextConnId task w) :
      Change cfg s l task ((s.enlist cfg io).perform s.nextConnId w)
  | remove (c : ConnId) (w : Deed ℓ) (htask : Removes cfg l c task)
      (hw : Fits cfg s l c task w) : Change cfg s l task ((s.erase cfg c).perform c w)
  | refuse (c : ConnId) (htask : Removes cfg l c task) :
      Change cfg s l task { s.note c (.removeConnectionInLoop 0) with assertFailed := true }

variable {task : ServerTask} {s' : ServerLoops ℓ}

omit [DecidableEq ℓ] in
theorem idle_fits (cfg : ServerConfig ℓ) (s : ServerLoops ℓ) (l : ℓ) (c : ConnId)
    (task : ServerTask) : Fits cfg s l c task (s.idle c) :=
  ⟨.same, fun _ he => absurd he List.not_mem_nil, fun _ _ hx => absurd hx List.not_mem_nil,
    fun _ _ hf => absurd hf List.not_mem_nil⟩

theorem Change.refl (htask : task ≠ .doPendingFunctors) : Change cfg s l task s := by
  have h : Change cfg s l task (s.perform 0 (s.idle 0)) :=
    .perform 0 _ htask (idle_fits cfg s l 0 task)
  rwa [perform_idle] at h

theorem push_user_change (htask : task ≠ .doPendingFunctors) :
    Change cfg s l task (s.push l [.user]) := by
  rw [push_perform 0]
  refine .perform 0 _ htask { idle_fits cfg s l 0 task with tasks := fun l' x hx => ?_ }
  rw [List.mem_singleton.mp (mem_onlyOn.mp hx).2]
  exact .user l'

/-- A deed that only posts a functor. -/
theorem post_change {l' : ℓ} {f : ServerFunctor} (htask : task ≠ .doPendingFunctors) (c : ConnId)
    (h : Posts cfg l c task l' f) : Change cfg s l task (s.post l' f) := by
  rw [post_perform c]
  refine .perform c _ htask { idle_fits cfg s l c task with functors := fun l'' g hg => ?_ }
  obtain ⟨rfl, hmem⟩ := mem_onlyOn.mp hg
  rwa [List.mem_singleton.mp hmem]

theorem afterDeed_fits (l : ℓ) {r : TcpConnection × List Effect}
    (h : Becomes (s.conns c) c s.nextConnId task r.1) : Fits cfg s l c task (afterDeed l c r) := by
  refine ⟨h, fun e he => ?_, fun l' x hx => ?_, fun l' f hf => ?_⟩
  · simp only [afterDeed] at he
    split_ifs at he
    · rw [List.mem_singleton.mp he]
      exact .handleClose
    · cases he
  · obtain ⟨rfl, hmem⟩ := mem_onlyOn.mp hx
    split_ifs at hmem
    · rcases List.mem_cons.mp hmem with rfl | hmem
      · exact .user l'
      · rw [List.mem_singleton.mp hmem]
        exact .closing
    · rw [List.mem_singleton.mp hmem]
      exact .user l'
    · cases hmem
  · obtain ⟨e, -, he⟩ := List.mem_filterMap.mp (mem_onlyOn.mp hf).2
    cases e <;> cases he
    exact .user l'

theorem after_change {r : TcpConnection × List Effect} (htask : task ≠ .doPendingFunctors)
    (h : Becomes (s.conns c) c s.nextConnId task r.1) :
    Change cfg s l task (s.after l c r) := by
  rw [after_perform]
  exact .perform c _ htask (afterDeed_fits l h)

omit [DecidableEq ℓ] in
theorem removeChannelDeed_fits (s : ServerLoops ℓ) (l : ℓ) (c : ConnId) {task : ServerTask}
    (htask : Unregisters c task) : Fits cfg s l c task (s.removeChannelDeed l c) := by
  unfold removeChannelDeed
  split_ifs
  · refine { idle_fits cfg s l c task with notes := fun e he => ?_ }
    rw [List.mem_singleton.mp he]
    exact .removeChannel htask true
  · refine { idle_fits cfg s l c task with conn := .removed, notes := fun e he => ?_ }
    rw [List.mem_singleton.mp he]
    exact .removeChannel htask false

theorem connectDestroyedDeed_fits (s : ServerLoops ℓ) (l : ℓ) (c : ConnId) :
    Fits cfg s l c (.functor (.connectDestroyed c)) (s.connectDestroyedDeed l c) := by
  unfold connectDestroyedDeed
  split_ifs
  · refine ⟨.disabled, fun e he => ?_, fun l' x hx => ?_, (idle_fits cfg s l c _).functors⟩
    · rw [List.mem_singleton.mp he]
      exact .connectDestroyed rfl _
    · obtain ⟨rfl, hmem⟩ := mem_onlyOn.mp hx
      rcases List.mem_cons.mp hmem with rfl | hmem
      · exact .user l'
      · rw [List.mem_singleton.mp hmem]
        exact .destroying rfl
  · have hfits : Fits cfg s l c _ _ := removeChannelDeed_fits s l c (.inl rfl)
    refine { hfits with notes := fun e he => ?_ }
    rcases List.mem_cons.mp he with rfl | he
    · exact .connectDestroyed rfl _
    · exact hfits.notes e he

theorem connectEstablished_fits (s : ServerLoops ℓ) (l : ℓ) (c : ConnId) :
    Fits cfg s l c (.functor (.connectEstablished c))
      { s.idle c with
        conn := (s.conns c).connectEstablished.1
        notes := [.connectEstablished l]
        tasks := onlyOn l [.user] } := by
  refine ⟨.established rfl, fun e he => ?_, fun l' x hx => ?_, (idle_fits cfg s l c _).functors⟩
  · rw [List.mem_singleton.mp he]
    exact .connectEstablished l
  · rw [List.mem_singleton.mp (mem_onlyOn.mp hx).2]
    exact .user l'

theorem newDeed_fits (s : ServerLoops ℓ) (l io : ℓ) (o : ConnOptions) (task : ServerTask) :
    Fits cfg s l s.nextConnId task (s.newDeed cfg io o) := by
  unfold newDeed
  split_ifs
  · refine ⟨.acceptedHere rfl o, fun e he => ?_, fun l' x hx => ?_,
      (idle_fits cfg s l _ _).functors⟩
    · rcases List.mem_cons.mp he with rfl | he
      · exact .newConnection
      · rw [List.mem_singleton.mp he]
        exact .connectEstablished io
    · rw [List.mem_singleton.mp (mem_onlyOn.mp hx).2]
      exact .user l'
  · refine ⟨.accepted rfl o, fun e he => ?_, (idle_fits cfg s l _ _).tasks, fun l' f hf => ?_⟩
    · rw [List.mem_singleton.mp he]
      exact .newConnection
    · rw [List.mem_singleton.mp (mem_onlyOn.mp hf).2]
      exact .connectEstablished l'

theorem removeDeed_fits (s : ServerLoops ℓ) (htask : Removes cfg l c task) :
    Fits cfg s l c task (s.removeDeed c) := by
  refine ⟨.same, fun e he => ?_, (idle_fits cfg s l c task).tasks, fun l' f hf => ?_⟩
  · rw [List.mem_singleton.mp he]
    exact .removeConnectionInLoop htask
  · rw [List.mem_singleton.mp (mem_onlyOn.mp hf).2]
    exact .connectDestroyed htask l'

theorem removeConnectionInLoop_change (s : ServerLoops ℓ) (htask : Removes cfg l c task) :
    Change cfg s l task (s.removeConnectionInLoop cfg c) := by
  by_cases hentry : (s.connections (cfg.connName c)).isSome = true
  · rw [removeConnectionInLoop_perform hentry]
    exact .remove c _ htask (removeDeed_fits s htask)
  · rw [removeConnectionInLoop, if_neg hentry]
    exact .refuse c htask

variable (cfg) in
/-- A call on another thread stores the state and posts a functor, if it does anything. -/
theorem callForeign_perform (s : ServerLoops ℓ) (l : ℓ) (c : ConnId) (m : ConnectionCall) :
    ∃ w, s.callForeign c m = s.perform c w ∧ Fits cfg s l c .user w ∧ w.tasks = fun _ => [] := by
  have hpost : ∀ f conn, Becomes (s.conns c) c s.nextConnId .user conn →
      Fits cfg s l c .user
        { s.idle c with conn := conn, functors := onlyOn (s.loopOf c) [.raw c f] } := by
    intro f conn hconn
    refine { idle_fits cfg s l c _ with conn := hconn, functors := fun l' g hg => ?_ }
    rw [List.mem_singleton.mp (mem_onlyOn.mp hg).2]
    exact .raw l' f
  have hidle : ∃ w, s = s.perform c w ∧ Fits cfg s l c .user w ∧ w.tasks = fun _ => [] :=
    ⟨s.idle c, (perform_idle s c).symm, idle_fits cfg s l c _, rfl⟩
  cases m with
  | send data =>
    simp only [callForeign]
    split_ifs
    · exact ⟨_, post_perform c _, hpost _ _ .same, rfl⟩
    · exact hidle
  | shutdown =>
    simp only [callForeign]
    split_ifs with hstate
    · exact ⟨_, setConn_post_perform _ _, hpost _ _ (.setDisconnecting (.inl hstate)), rfl⟩
    · exact hidle
  | forceClose =>
    simp only [callForeign]
    split_ifs with hstate
    · exact ⟨_, setConn_post_perform _ _, hpost _ _ (.setDisconnecting hstate), rfl⟩
    · exact hidle

theorem Done.change {e : ServerEvent ℓ} (h : Done cfg s l task e s') : Change cfg s l task s' := by
  cases h with
  | closing c =>
    unfold removeConnection
    split_ifs with hl
    · exact removeConnectionInLoop_change s (.inl ⟨rfl, hl⟩)
    · exact post_change nofun c .removeConnectionInLoop
  | destroying c =>
    rw [removeChannel_perform]
    exact .perform c _ nofun (removeChannelDeed_fits s l c (.inr rfl))
  | handleEvent channel revents => exact .handleEvent channel revents rfl
  | event c cb e he r hr => exact after_change nofun (.served cb rfl r hr)
  | accept io o hlimit =>
    rw [newConnection_perform]
    exact .accept io _ rfl (newDeed_fits s l io o _)
  | skip channel cb e he => exact .refl nofun
  | timer => exact push_user_change nofun
  | doPendingFunctors => exact .doPendingFunctors rfl
  | established c =>
    rw [connectEstablished_perform]
    exact .perform c _ nofun (connectEstablished_fits s l c)
  | remove c => exact removeConnectionInLoop_change s (.inr rfl)
  | destroyed c =>
    rw [connectDestroyed_perform]
    exact .perform c _ nofun (connectDestroyedDeed_fits s l c)
  | raw c f e he r hr => exact after_change nofun (.called r hr)
  | user => exact push_user_change nofun

/-- A step, as a change of the state from which the task has been taken. -/
inductive Turn (cfg : ServerConfig ℓ) (s : ServerLoops ℓ) : ServerOp ℓ → ServerLoops ℓ → Prop
  | poll (l : ℓ) (batch : List (ActiveChannel × Revents)) (hagenda : (s.loops l).agenda = [])
      (hregistered : ∀ p ∈ batch, s.Registered cfg l p.1) :
      Turn cfg s (.loop l (.poll batch)) (s.onLoop l (·.poll batch))
  | call (op : ServerOp ℓ) (hop : op.accepted = none) (l : ℓ) (s' : ServerLoops ℓ)
      (h : Change cfg s l .user s') : Turn cfg s op s'
  | ret (l : ℓ) (rest : List ServerTask) (hagenda : (s.loops l).agenda = .user :: rest) :
      Turn cfg s (.loop l .ret) (s.take l rest)
  | task (l : ℓ) (task : ServerTask) (rest : List ServerTask) (e : ServerEvent ℓ)
      (s' : ServerLoops ℓ) (hagenda : (s.loops l).agenda = task :: rest)
      (hdone : Done cfg (s.take l rest) l task e s')
      (h : Change cfg (s.take l rest) l task s') : Turn cfg s (.loop l e) s'

theorem Step.turn {op : ServerOp ℓ} (h : Step cfg s op s') : Turn cfg s op s' := by
  cases h with
  | poll l batch hagenda hregistered => exact .poll l batch hagenda hregistered
  | call l u c r hc hl hagenda hr => exact .call _ rfl l _ (after_change nofun (.called r hr))
  | foreign op hop m c hc =>
    obtain ⟨w, hperform, hw, -⟩ := callForeign_perform cfg s (s.loopOf c) c m
    rw [hperform]
    exact .call op hop (s.loopOf c) _ (.perform c w nofun hw)
  | queueInLoop l l' => exact .call _ rfl l _ (post_change nofun 0 (.user l'))
  | ret l rest hagenda => exact .ret l rest hagenda
  | task l task rest e s' hagenda huser hdone =>
    exact .task l task rest e s' hagenda hdone hdone.change

end ServerLoops
end ReMuduo
