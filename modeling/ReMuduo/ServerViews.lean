import ReMuduo.ConnectionViews
import ReMuduo.ServerDeeds

/-! # The views of the connections of a server

`ServerLoops.view` cuts the view of one connection out of the server.  This module says what
the parts of a step do to it, and prepares two facts that the steps rest on: connections have
different names, and a loop handles its active channels before it runs its functors. -/
namespace ReMuduo

/-! ## Names -/

theorem ServerConfig.connName_eq {ℓ : Type} (cfg : ServerConfig ℓ) {id : ConnId}
    (hid : id < intLimit) :
    cfg.connName id = cfg.ipPort ++ ('-' :: cfg.ipPort ++ '#' :: Nat.toDigits 10 id) := by
  have hdigits : (Nat.toDigits 10 id).length ≤ 10 := by
    refine (Nat.length_toDigits_le_iff (by decide) (by decide)).mpr ?_
    exact Nat.lt_of_lt_of_le hid (by decide)
  have hshort := cfg.short
  rw [connName, List.take_of_length_le]
  simp only [List.length_append, List.length_cons]
  omega

/-- Below the limit of `nextConnId_`, no two connections have the same name. -/
theorem ServerConfig.connName_injective {ℓ : Type} (cfg : ServerConfig ℓ) {c d : ConnId}
    (hc : c < intLimit) (hd : d < intLimit) (h : cfg.connName c = cfg.connName d) : c = d := by
  rw [cfg.connName_eq hc, cfg.connName_eq hd] at h
  have hdigits : Nat.toDigits 10 c = Nat.toDigits 10 d := by simpa using h
  rw [← Nat.ofDigitChars_ten_toDigits (n := c), hdigits, Nat.ofDigitChars_ten_toDigits]

/-! ## The two phases of an iteration -/

namespace LoopTask

/-- What may stand before `doPendingFunctors`. -/
def inDispatch : LoopTask AfterCallback ServerFunctor → Bool
  | .user => true
  | .resume (.closing _) => true
  | .callback _ _ => true
  | .handleEvent _ _ => true
  | _ => false

/-- What may come up while functors run. -/
def inFunctors : LoopTask AfterCallback ServerFunctor → Bool
  | .user => true
  | .resume _ => true
  | .functor _ => true
  | _ => false

end LoopTask

namespace LoopThread

/-- A loop either still has its functors before it, or it has done with its channels. -/
inductive Shaped (t : LoopThread AfterCallback ServerFunctor) : Prop
  | dispatch (tasks : List ServerTask) (hagenda : t.agenda = tasks ++ [.doPendingFunctors])
      (htasks : ∀ x ∈ tasks, x.inDispatch = true)
  | functors (hactive : t.currentActiveChannel = none)
      (htasks : ∀ x ∈ t.agenda, x.inFunctors = true)

variable {t t' : ServerThread} {task : ServerTask} {rest : List ServerTask}

/-- New tasks.  Those that the first phase does not have come up in the second only. -/
theorem Shaped.push (h : t.Shaped) (tasks : List ServerTask)
    (htasks : ∀ x ∈ tasks, x.inFunctors = true ∧
      (x.inDispatch = true ∨ .doPendingFunctors ∉ t.agenda))
    (hactive : t'.currentActiveChannel = t.currentActiveChannel)
    (hagenda : t'.agenda = tasks ++ t.agenda) : t'.Shaped := by
  cases h with
  | dispatch old hold hin =>
    refine .dispatch (tasks ++ old) (by rw [hagenda, hold, List.append_assoc]) fun x hx => ?_
    rcases List.mem_append.mp hx with hx | hx
    · exact (htasks x hx).2.resolve_right (absurd (by simp [hold]))
    · exact hin x hx
  | functors hnone hin =>
    refine .functors (hactive.trans hnone) fun x hx => ?_
    rw [hagenda] at hx
    exact (List.mem_append.mp hx).elim (fun hx => (htasks x hx).1) (hin x)

/-- What the first task tells about the phase. -/
theorem Shaped.cons_cases (h : t.Shaped) (hagenda : t.agenda = task :: rest) :
    (task = .doPendingFunctors ∧ rest = []) ∨
    (task.inDispatch = true ∧
      ∃ tasks, rest = tasks ++ [.doPendingFunctors] ∧ ∀ x ∈ tasks, x.inDispatch = true) ∨
    (task.inFunctors = true ∧ t.currentActiveChannel = none ∧ ∀ x ∈ rest, x.inFunctors = true) := by
  cases h with
  | dispatch tasks htasks hin =>
    rw [hagenda] at htasks
    cases tasks with
    | nil => exact Or.inl (List.cons.inj htasks)
    | cons x tasks =>
      obtain ⟨rfl, hrest⟩ := List.cons.inj htasks
      have hin' := List.forall_mem_cons.mp hin
      exact Or.inr (Or.inl ⟨hin'.1, tasks, hrest, hin'.2⟩)
  | functors hnone hin =>
    rw [hagenda] at hin
    have hin' := List.forall_mem_cons.mp hin
    exact Or.inr (Or.inr ⟨hin'.1, hnone, hin'.2⟩)

/-- `doPendingFunctors` is the last task. -/
theorem Shaped.of_doPendingFunctors (h : t.Shaped)
    (hagenda : t.agenda = .doPendingFunctors :: rest) : rest = [] := by
  rcases h.cons_cases hagenda with ⟨-, hrest⟩ | ⟨hno, -⟩ | ⟨hno, -⟩
  · exact hrest
  · cases hno
  · cases hno

theorem Shaped.of_handleEvent {channel : ActiveChannel} {revents : Revents} (h : t.Shaped)
    (hagenda : t.agenda = .handleEvent channel revents :: rest) :
    ∃ tasks, rest = tasks ++ [.doPendingFunctors] ∧ ∀ x ∈ tasks, x.inDispatch = true := by
  rcases h.cons_cases hagenda with ⟨hno, -⟩ | ⟨-, hrest⟩ | ⟨hno, -⟩
  · cases hno
  · exact hrest
  · cases hno

/-- A task of the second phase is at the head. -/
theorem Shaped.of_functors (h : t.Shaped) (hagenda : t.agenda = task :: rest)
    (hin : task.inFunctors = true) (hout : task.inDispatch = false) :
    t.currentActiveChannel = none := by
  rcases h.cons_cases hagenda with ⟨rfl, -⟩ | ⟨hno, -⟩ | ⟨-, hnone, -⟩
  · cases hin
  · cases hout.symm.trans hno
  · exact hnone

/-- Behind a task of the second phase no `doPendingFunctors` is left. -/
theorem Shaped.not_mem_of_functors (h : t.Shaped) (hagenda : t.agenda = task :: rest)
    (hout : task.inDispatch = false) : .doPendingFunctors ∉ rest := by
  rcases h.cons_cases hagenda with ⟨-, rfl⟩ | ⟨hno, -⟩ | ⟨-, -, hin⟩
  · exact List.not_mem_nil
  · cases hout.symm.trans hno
  · exact fun hmem => Bool.false_ne_true (hin _ hmem)

/-- Every task but `doPendingFunctors` leaves the loop in its phase. -/
theorem Shaped.take (h : t.Shaped) (hagenda : t.agenda = task :: rest)
    (htask : task ≠ .doPendingFunctors) : Shaped (t.take rest) := by
  rcases h.cons_cases hagenda with ⟨rfl, -⟩ | ⟨-, tasks, hrest, hin⟩ | ⟨-, hnone, hin⟩
  · exact absurd rfl htask
  · exact .dispatch tasks hrest hin
  · exact .functors hnone hin

theorem Shaped.handleEvent {channel : ActiveChannel} {revents : Revents} (h : t.Shaped)
    (hagenda : t.agenda = .handleEvent channel revents :: rest) :
    Shaped ((t.take rest).handleEvent channel revents) := by
  obtain ⟨tasks, hrest, hin⟩ := h.of_handleEvent hagenda
  refine .dispatch (eventTasks channel revents ++ tasks) ?_ fun x hx => ?_
  · simp [LoopThread.handleEvent, LoopThread.take, hrest]
  · rcases List.mem_append.mp hx with hx | hx
    · obtain ⟨cb, rfl⟩ := mem_eventTasks hx
      rfl
    · exact hin x hx

theorem Shaped.doPendingFunctors (h : t.Shaped) (hagenda : t.agenda = .doPendingFunctors :: rest) :
    Shaped (t.take rest).doPendingFunctors := by
  obtain rfl := h.of_doPendingFunctors hagenda
  refine .functors rfl fun x hx => ?_
  simp only [LoopThread.doPendingFunctors, LoopThread.take, List.append_nil] at hx
  obtain ⟨f, -, rfl⟩ := List.mem_map.mp hx
  rfl

theorem shaped_poll (batch : List (ActiveChannel × Revents)) (hagenda : t.agenda = []) :
    Shaped (t.poll batch) := by
  refine .dispatch (batch.map fun p => .handleEvent p.1 p.2) ?_ fun x hx => ?_
  · simp [LoopThread.poll, LoopThread.push, hagenda]
  · obtain ⟨p, -, rfl⟩ := List.mem_map.mp hx
    rfl

/-! ## The items of a loop -/

theorem items_push (t : ServerThread) (tasks : List ServerTask) (c : ConnId) :
    (t.push tasks).items c = tasks.flatMap (fun x => Item.of c x.about) ++ t.items c := by
  simp [items, push]

theorem items_post (t : ServerThread) (f : ServerFunctor) (c : ConnId) :
    (t.post f).items c = t.items c ++ Item.of c f.about := by
  simp [items, post]

theorem items_take (hagenda : t.agenda = task :: rest) (c : ConnId) :
    t.items c = Item.of c task.about ++ (t.take rest).items c := by
  simp [items, take, hagenda]

end LoopThread

namespace ServerLoops

variable {ℓ : Type} (cfg : ServerConfig ℓ)

/-- What concerns connection `c`. -/
def view (s : ServerLoops ℓ) (c : ConnId) : ConnView ℓ where
  loop := s.loopOf c
  state := (s.conns c).state
  epoll := (s.conns c).channel.epoll.isSome
  entry := s.connections (cfg.connName c) == some c
  life := s.life c
  items := fun l => (s.loops l).items c

variable {cfg} {s s' s'' : ServerLoops ℓ} {l : ℓ} {c d : ConnId} {task : ServerTask}
  {rest : List ServerTask} {r : TcpConnection × List Effect}

/-! ## Views after the parts of a step -/

theorem view_setConn (c : ConnId) (conn : TcpConnection) :
    (s.setConn c conn).view cfg c =
      { s.view cfg c with state := conn.state, epoll := conn.channel.epoll.isSome } := by
  simp [view, setConn]

theorem view_setConn_ne (h : d ≠ c) (conn : TcpConnection) :
    (s.setConn c conn).view cfg d = s.view cfg d := by
  simp [view, setConn, h]

theorem view_note (c : ConnId) (e : LifeEvent ℓ) :
    (s.note c e).view cfg c =
      { s.view cfg c with life := (s.view cfg c).life ++ [e] } := by
  simp [view, note]

theorem view_note_ne (h : d ≠ c) (e : LifeEvent ℓ) :
    (s.note c e).view cfg d = s.view cfg d := by
  simp [view, note, h]

/-- Outside the handling of channels, no channel is refused. -/
theorem removeChannel_eq (l : ℓ) (c : ConnId) (h : (s.loops l).currentActiveChannel = none) :
    s.removeChannel l c =
      (s.setConn c { s.conns c with channel := (s.conns c).channel.removeChannel }).note c
        (.removeChannel false) := by
  rw [removeChannel, if_neg (by rw [h]; exact Option.some_ne_none _ |>.symm)]

/-- A connection that is down already, as `connectDestroyed` finds it. -/
theorem connectDestroyed_eq [DecidableEq ℓ] (l : ℓ) (c : ConnId)
    (hstate : (s.conns c).state ≠ .kConnected) (h : (s.loops l).currentActiveChannel = none) :
    s.connectDestroyed l c =
      ((s.note c (.connectDestroyed l none)).setConn c
        { s.conns c with channel := (s.conns c).channel.removeChannel }).note c
          (.removeChannel false) := by
  have hconn : (s.conns c).connectDestroyed.1 = s.conns c := by
    rw [TcpConnection.connectDestroyed, if_neg hstate]
  have hset : s.setConn c (s.conns c) = s := by simp [setConn]
  rw [connectDestroyed, if_neg hstate, hconn, hset, h]
  exact removeChannel_eq _ _ h

theorem items_queued (es : List Effect) (c : ConnId) :
    (queued es).flatMap (fun f => Item.of c f.about) = [] := by
  induction es with
  | nil => rfl
  | cons e es ih =>
    cases e <;> simpa [queued, ServerFunctor.about] using ih

variable [DecidableEq ℓ]

theorem view_onLoop (l : ℓ) (f : ServerThread → ServerThread) (c : ConnId) :
    (s.onLoop l f).view cfg c = (s.view cfg c).set l ((f (s.loops l)).items c) := by
  have hitems : (fun l' => ((s.onLoop l f).loops l').items c) =
      Function.update (fun l' => (s.loops l').items c) l ((f (s.loops l)).items c) := by
    funext l'
    by_cases hl : l' = l
    · subst hl
      simp [onLoop]
    · simp [onLoop, hl]
  simp only [view, ConnView.set, ← hitems]
  rfl

theorem view_onLoop_of_items {f : ServerThread → ServerThread}
    (h : (f (s.loops l)).items c = (s.loops l).items c) :
    (s.onLoop l f).view cfg c = s.view cfg c := by
  rw [view_onLoop, h]
  exact ConnView.set_eq_self rfl

theorem view_push (l : ℓ) (tasks : List ServerTask) (c : ConnId) :
    (s.push l tasks).view cfg c = (s.view cfg c).set l
      (tasks.flatMap (fun x => Item.of c x.about) ++ (s.view cfg c).items l) := by
  rw [push, view_onLoop, LoopThread.items_push]
  rfl

theorem view_push_user (l : ℓ) (c : ConnId) :
    (s.push l [.user]).view cfg c = s.view cfg c :=
  view_onLoop_of_items (LoopThread.items_push ..)

theorem view_post (l : ℓ) (f : ServerFunctor) {i : Item} (h : f.about = some (c, i)) :
    (s.post l f).view cfg c = (s.view cfg c).add l i := by
  rw [post, view_onLoop, LoopThread.items_post, h, Item.of_self]
  rfl

theorem view_post_ne (l : ℓ) (f : ServerFunctor) (h : Item.of d f.about = []) :
    (s.post l f).view cfg d = s.view cfg d :=
  view_onLoop_of_items (by rw [LoopThread.items_post, h, List.append_nil])

variable (cfg) in
/-- The first task is taken, and it is about `c`. -/
theorem view_take {i : Item} (hagenda : (s.loops l).agenda = task :: rest)
    (habout : task.about = some (c, i)) :
    ∃ is, (s.view cfg c).items l = i :: is ∧
      (s.take l rest).view cfg c = (s.view cfg c).set l is := by
  refine ⟨((s.loops l).take rest).items c, ?_, view_onLoop ..⟩
  refine (LoopThread.items_take hagenda c).trans ?_
  rw [habout, Item.of_self]
  rfl

theorem view_take_ne (hagenda : (s.loops l).agenda = task :: rest)
    (habout : Item.of c task.about = []) : (s.take l rest).view cfg c = s.view cfg c := by
  refine view_onLoop_of_items ?_
  rw [LoopThread.items_take hagenda c, habout, List.nil_append]

/-- Taking a task leaves the other connections alone. -/
theorem view_take_other {i : Item} (hagenda : (s.loops l).agenda = task :: rest)
    (habout : task.about = some (c, i)) (hd : d ≠ c) : (s.take l rest).view cfg d = s.view cfg d :=
  view_take_ne hagenda (by rw [habout, Item.of_ne hd.symm])

theorem view_store (l : ℓ) (c : ConnId) (r : TcpConnection × List Effect) (d : ConnId) :
    (s.store l c r).view cfg d = (s.setConn c r.1).view cfg d := by
  refine view_onLoop_of_items ?_
  simp [LoopThread.items, items_queued]

theorem view_after_quiet (l : ℓ) (hclose : .closeCallback ∉ r.2) :
    (s.after l c r).view cfg c =
      { s.view cfg c with state := r.1.state, epoll := r.1.channel.epoll.isSome } := by
  rw [after, if_neg hclose]
  split_ifs
  · rw [view_push_user, view_store, view_setConn]
  · rw [view_store, view_setConn]

theorem view_after_close (l : ℓ) (hclose : .closeCallback ∈ r.2) :
    (s.after l c r).view cfg c =
      { (s.view cfg c).set l (.close :: (s.view cfg c).items l) with
        state := r.1.state, epoll := r.1.channel.epoll.isSome
        life := (s.view cfg c).life ++ [.handleClose l] } := by
  rw [after, if_pos hclose, view_push, view_note, view_store, view_setConn]
  simp [ConnView.set, LoopTask.about]

theorem view_connectEstablished (l : ℓ) (c : ConnId) :
    (s.connectEstablished l c).view cfg c =
      { s.view cfg c with
        state := .kConnected
        epoll := (s.conns c).connectEstablished.1.channel.epoll.isSome
        life := (s.view cfg c).life ++ [.connectEstablished l] } := by
  rw [connectEstablished, view_push_user, view_note, view_setConn]
  rfl

omit [DecidableEq ℓ] in
/-- **A deed leaves the views of the other connections alone.** -/
theorem Fits.view_ne {t : ServerLoops ℓ} {w : Deed ℓ} (hw : Fits cfg t l c task w) (hd : d ≠ c) :
    (s.perform c w).view cfg d = s.view cfg d := by
  have htasks : ∀ l', (w.tasks l').flatMap (fun x => Item.of d x.about) = [] := by
    refine fun l' => List.flatMap_eq_nil_iff.mpr fun x hx => ?_
    cases hw.tasks l' x hx with
    | user => rfl
    | closing | destroying => exact Item.of_ne hd.symm _
  have hfunctors : ∀ l', (w.functors l').flatMap (fun f => Item.of d f.about) = [] := by
    refine fun l' => List.flatMap_eq_nil_iff.mpr fun f hf => ?_
    cases hw.functors l' f hf with
    | user => rfl
    | raw | connectEstablished | removeConnectionInLoop | connectDestroyed =>
      exact Item.of_ne hd.symm _
  simp [view, perform, LoopThread.items, hd, htasks, hfunctors]

end ServerLoops
end ReMuduo
