import ReMuduo.Poller

/-! # Removed channels

`EventLoop::loop` (`src/base/Eventloop.cpp`) lets the poller fill `activeChannels_` with
pointers and then calls `handleEvent` on them one after another.  Code on the loop thread
may remove any channel at any point: outside the loop, in a functor, or in a handler.

`ChannelLoop` is the poller (`ReMuduo.Poller`) with the part of `activeChannels_` that the
loop has not come to yet.  It remembers which channels have been removed and not registered
again, and which of those the loop has called all the same.

Nothing is assumed about the file descriptors: several channels may have the same one, as a
new channel does whose descriptor was closed and opened again. -/
namespace ReMuduo

/-- What is found in a map after an update was put there by it, or was there before. -/
theorem update_eq_some {ι α : Type} [DecidableEq ι] {g : ι → Option α} {i j : ι}
    {entry : Option α} {a : α} (h : Function.update g i entry j = some a) :
    (j = i ∧ entry = some a) ∨ (j ≠ i ∧ g j = some a) := by
  by_cases hj : j = i
  · subst hj
    rw [Function.update_self] at h
    exact .inl ⟨rfl, h⟩
  · rw [Function.update_of_ne hj] at h
    exact .inr ⟨hj, h⟩

/-- A successful `epoll_ctl` writes the entry of its descriptor, or removes it. -/
theorem InterestSet.ctl_eq_some {κ : Type} {set set' : InterestSet κ} {op : EpollOp} {fd : Fd}
    {event : κ × Events} (h : set.ctl op fd event = some set') :
    ∃ entry, set' = Function.update set fd entry ∧ (entry = none ∨ entry = some event) := by
  unfold ctl at h
  split at h
  · exact ⟨_, (Option.some.inj h).symm, .inr rfl⟩
  · exact ⟨_, (Option.some.inj h).symm, .inr rfl⟩
  · exact ⟨_, (Option.some.inj h).symm, .inl rfl⟩
  · cases h
  · cases h
  · cases h

namespace EpollPoller

variable {κ : Type} [DecidableEq κ] {fd : κ → Fd} {p : EpollPoller κ}

/-! ## What refers to a channel -/

/-- The pointers in `channels_` and in the kernel are under the descriptor of their channel,
and the kernel has only those of channels with index `kAdded`. -/
structure Own (fd : κ → Fd) (p : EpollPoller κ) : Prop where
  mapped : ∀ f c, p.channels f = some c → f = fd c
  kernel : ∀ f c e, p.epoll f = some (c, e) → f = fd c ∧ p.index c = .kAdded

/-- The poller holds no reference to the channel. -/
structure Unheld (p : EpollPoller κ) (c : κ) : Prop where
  mapped : ∀ f, p.channels f ≠ some c
  kernel : ∀ f e, p.epoll f ≠ some (c, e)

omit [DecidableEq κ] in
theorem initial_own : Own fd (initial : EpollPoller κ) := ⟨nofun, nofun⟩

omit [DecidableEq κ] in
/-- `EPOLL_CTL_DEL` leaves no entry under the descriptor, whether it fails or not. -/
theorem update_del (p : EpollPoller κ) (c : κ) : (p.update fd .del c).epoll (fd c) = none := by
  unfold update InterestSet.ctl
  cases hentry : p.epoll (fd c) with
  | none => exact hentry
  | some entry => exact Function.update_self ..

omit [DecidableEq κ] in
/-- An update changes the kernel's entry of its channel only, and what it may put there is a
pointer to the channel. -/
theorem update_epoll {op : EpollOp} {c : κ} {f : Fd} {entry : κ × Events}
    (h : (p.update fd op c).epoll f = some entry) :
    p.epoll f = some entry ∨ (f = fd c ∧ entry.1 = c) := by
  unfold update at h
  split at h
  · rename_i set hset
    obtain ⟨new, rfl, hnew⟩ := InterestSet.ctl_eq_some hset
    rcases update_eq_some h with ⟨hf, heq⟩ | ⟨-, hold⟩
    · rcases hnew with rfl | rfl
      · cases heq
      · exact .inr ⟨hf, by rw [← Option.some.inj heq]⟩
    · exact .inl hold
  · exact .inl h

omit [DecidableEq κ] in
theorem update_rest (p : EpollPoller κ) (op : EpollOp) (c : κ) :
    (p.update fd op c).channels = p.channels ∧ (p.update fd op c).index = p.index ∧
      (p.update fd op c).currentActiveChannel = p.currentActiveChannel := by
  unfold update
  split
  · exact ⟨rfl, rfl, rfl⟩
  · exact ⟨rfl, rfl, rfl⟩

omit [DecidableEq κ] in
/-- `EPOLL_CTL_ADD` or `EPOLL_CTL_MOD` for a channel whose index has been set. -/
theorem Own.update (h : Own fd p) (op : EpollOp) {c : κ} (hc : p.index c = .kAdded) :
    Own fd (p.update fd op c) := by
  obtain ⟨hchannels, hindex, -⟩ : (p.update fd op c).channels = p.channels ∧
      (p.update fd op c).index = p.index ∧ _ := update_rest p op c
  refine ⟨fun f d hd => h.mapped f d (hchannels ▸ hd), fun f d e he => ?_⟩
  rw [hindex]
  rcases update_epoll he with he | ⟨hf, hd⟩
  · exact h.kernel f d e he
  · obtain rfl : d = c := hd
    exact ⟨hf, hc⟩

/-- Setting the index of a channel that is not in the kernel, or setting it to `kAdded`. -/
theorem Own.setIndex (h : Own fd p) {c : κ} {idx : Index}
    (hidx : idx = .kAdded ∨ ∀ f e, p.epoll f ≠ some (c, e)) : Own fd (p.setIndex c idx) := by
  refine ⟨h.mapped, fun f d e he => ⟨(h.kernel f d e he).1, ?_⟩⟩
  show Function.update p.index c idx d = .kAdded
  by_cases hd : d = c
  · subst hd
    rw [Function.update_self]
    exact hidx.resolve_right fun hno => hno f e he
  · rw [Function.update_of_ne hd]
    exact (h.kernel f d e he).2

omit [DecidableEq κ] in
/-- After `EPOLL_CTL_DEL` the kernel does not have the channel. -/
theorem Own.update_del_unheld (h : Own fd p) {c : κ} (f : Fd) (e : Events) :
    (p.update fd .del c).epoll f ≠ some (c, e) := by
  intro he
  have hf : f = fd c := by
    rcases update_epoll he with he | ⟨hf, -⟩
    · exact (h.kernel f c e he).1
    · exact hf
  rw [hf, update_del] at he
  cases he

omit [DecidableEq κ] in
theorem Own.setChannel (h : Own fd p) {c : κ} {entry : Option κ}
    (hentry : ∀ d, entry = some d → d = c) :
    Own fd { p with channels := Function.update p.channels (fd c) entry } := by
  refine ⟨fun f d hd => ?_, h.kernel⟩
  rcases update_eq_some hd with ⟨hf, heq⟩ | ⟨-, hold⟩
  · rw [hf, hentry d heq]
  · exact h.mapped f d hold

theorem Own.updateChannel (h : Own fd p) (c : κ) : Own fd (p.updateChannel fd c) := by
  unfold EpollPoller.updateChannel
  split
  · have hmapped : Own fd { p with channels := Function.update p.channels (fd c) (some c) } :=
      h.setChannel fun d hd => (Option.some.inj hd).symm
    exact (hmapped.setIndex (.inl rfl)).update .add (Function.update_self ..)
  · exact (h.setIndex (.inl rfl)).update .add (Function.update_self ..)
  · rename_i hidx
    split
    · exact (h.update .del hidx).setIndex (.inr h.update_del_unheld)
    · exact h.update .mod hidx

/-- **`removeChannel` leaves no reference to its channel.** -/
theorem Own.removeChannel (h : Own fd p) (c : κ) :
    Own fd (p.removeChannel fd c) ∧ (p.removeChannel fd c).Unheld c := by
  have herased : Own fd { p with channels := Function.update p.channels (fd c) none } :=
    h.setChannel fun d hd => absurd hd.symm (Option.some_ne_none d)
  have hmapped : ∀ f, Function.update p.channels (fd c) none f ≠ some c := by
    intro f hc
    rcases update_eq_some hc with ⟨-, heq⟩ | ⟨hf, hold⟩
    · cases heq
    · exact hf (h.mapped f c hold)
  unfold EpollPoller.removeChannel
  dsimp only
  split
  · rename_i hidx
    have hdel := herased.update_del_unheld (c := c)
    refine ⟨(herased.update .del hidx).setIndex (.inr hdel), fun f => ?_, hdel⟩
    show (EpollPoller.update fd _ .del c).channels f ≠ some c
    rw [(update_rest _ _ _).1]
    exact hmapped f
  · rename_i hidx
    have hnone : ∀ f e, p.epoll f ≠ some (c, e) := fun f e he => hidx (h.kernel f c e he).2
    exact ⟨herased.setIndex (.inr hnone), hmapped, hnone⟩

/-- A call removes its channel, unless that is refused, or updates it with new events. -/
theorem call_cases (fd : κ → Fd) (p : EpollPoller κ) (c : κ) (op : ChannelCall) :
    (op = .remove ∧ p.currentActiveChannel = some c ∧ p.call fd c op = p) ∨
      (op = .remove ∧ p.currentActiveChannel ≠ some c ∧
        p.call fd c op = p.removeChannel fd c) ∨
      ∃ events, p.call fd c op =
        ({ p with events := events } : EpollPoller κ).updateChannel fd c := by
  cases op with
  | remove =>
    by_cases hactive : p.currentActiveChannel = some c
    · exact .inl ⟨rfl, hactive, if_pos hactive⟩
    · exact .inr (.inl ⟨rfl, hactive, if_neg hactive⟩)
  | enableReading | disableReading | enableWriting | disableWriting | disableAll =>
    exact .inr (.inr ⟨_, rfl⟩)

theorem Own.call (h : Own fd p) (c : κ) (op : ChannelCall) : Own fd (p.call fd c op) := by
  rcases call_cases fd p c op with ⟨-, -, heq⟩ | ⟨-, -, heq⟩ | ⟨events, heq⟩
  · rw [heq]
    exact h
  · rw [heq]
    exact (h.removeChannel c).1
  · have hevents : Own fd { p with events := events } := ⟨h.mapped, h.kernel⟩
    rw [heq]
    exact hevents.updateChannel c

section

variable {c d : κ}

omit [DecidableEq κ] in
theorem Unheld.update (h : p.Unheld d) (hne : d ≠ c) (op : EpollOp) :
    (p.update fd op c).Unheld d := by
  refine ⟨fun f => ?_, fun f e he => ?_⟩
  · rw [(update_rest p op c).1]
    exact h.mapped f
  · rcases update_epoll he with he | ⟨-, hd⟩
    · exact h.kernel f e he
    · exact hne hd

omit [DecidableEq κ] in
theorem Unheld.setChannel (h : p.Unheld d) {entry : Option κ} (hentry : entry ≠ some d) (f : Fd) :
    ({ p with channels := Function.update p.channels f entry } : EpollPoller κ).Unheld d := by
  refine ⟨fun g hd => ?_, h.kernel⟩
  rcases update_eq_some hd with ⟨-, heq⟩ | ⟨-, hold⟩
  · exact hentry heq
  · exact h.mapped g hold

theorem Unheld.setIndex (h : p.Unheld d) (c : κ) (idx : Index) : (p.setIndex c idx).Unheld d :=
  ⟨h.mapped, h.kernel⟩

theorem Unheld.updateChannel (h : p.Unheld d) (hne : d ≠ c) :
    (p.updateChannel fd c).Unheld d := by
  have hsome : some c ≠ some d := fun heq => hne (Option.some.inj heq).symm
  unfold EpollPoller.updateChannel
  split
  · exact ((h.setChannel hsome _).setIndex c _).update hne .add
  · exact (h.setIndex c _).update hne .add
  · split
    · exact (h.update hne .del).setIndex c _
    · exact h.update hne .mod

theorem Unheld.removeChannel (h : p.Unheld d) (hne : d ≠ c) :
    (p.removeChannel fd c).Unheld d := by
  have herased := h.setChannel (Option.some_ne_none d).symm (fd c)
  unfold EpollPoller.removeChannel
  dsimp only
  split
  · exact (herased.update hne .del).setIndex c _
  · exact herased.setIndex c _

/-- A call on one channel makes no reference to another. -/
theorem Unheld.call (h : p.Unheld d) (hne : d ≠ c) (op : ChannelCall) :
    (p.call fd c op).Unheld d := by
  rcases call_cases fd p c op with ⟨-, -, heq⟩ | ⟨-, -, heq⟩ | ⟨events, heq⟩
  · rw [heq]
    exact h
  · rw [heq]
    exact h.removeChannel hne
  · have hevents : ({ p with events := events } : EpollPoller κ).Unheld d :=
      ⟨h.mapped, h.kernel⟩
    rw [heq]
    exact hevents.updateChannel hne

end

theorem call_currentActiveChannel (p : EpollPoller κ) (c : κ) (op : ChannelCall) :
    (p.call fd c op).currentActiveChannel = p.currentActiveChannel := by
  rcases call_cases fd p c op with ⟨-, -, heq⟩ | ⟨-, -, heq⟩ | ⟨events, heq⟩
  · rw [heq]
  · rw [heq]
    unfold EpollPoller.removeChannel
    dsimp only
    split
    · exact (update_rest _ .del c).2.2
    · rfl
  · rw [heq]
    unfold EpollPoller.updateChannel
    split
    · exact (update_rest _ .add c).2.2
    · exact (update_rest _ .add c).2.2
    · split
      · exact (update_rest _ .del c).2.2
      · exact (update_rest _ .mod c).2.2

end EpollPoller

/-! ## The loop -/

/-- A loop: its poller, the channels of the batch that it has still to handle, the channels
that have been removed and not registered again, and those of them on which `handleEvent`
has been called. -/
structure ChannelLoop (κ : Type) where
  poller : EpollPoller κ
  activeChannels : List κ
  removed : κ → Bool
  stray : List κ

/-- The steps of the loop thread. -/
inductive ChannelLoopOp (κ : Type)
  /-- `poll` returns; these descriptors are ready. -/
  | poll (ready : List Fd)
  /-- `handleEvent` of the next channel begins. -/
  | handleEvent
  /-- The batch is done: `currentActiveChannel_ = nullptr`. -/
  | handled
  /-- A call on a channel, in a handler, in a functor or outside the loop. -/
  | call (channel : κ) (call : ChannelCall)

namespace ChannelLoop

variable {κ : Type} [DecidableEq κ] (fd : κ → Fd)

def initial : ChannelLoop κ := ⟨.initial, [], fun _ => false, []⟩

/-- `fillActiveChannels`: the pointers that the kernel has for the descriptors. -/
def fillActiveChannels (p : EpollPoller κ) (ready : List Fd) : List κ :=
  ready.filterMap fun f => (p.epoll f).map Prod.fst

/-- Every call but `remove` registers its channel. -/
def step (s : ChannelLoop κ) : ChannelLoopOp κ → Option (ChannelLoop κ)
  | .poll ready =>
    if s.activeChannels = [] ∧ s.poller.currentActiveChannel = none ∧ ready.Nodup then
      some { s with activeChannels := fillActiveChannels s.poller ready }
    else none
  | .handleEvent =>
    match s.activeChannels with
    | [] => none
    | channel :: rest => some { s with
        poller := { s.poller with currentActiveChannel := some channel }
        activeChannels := rest
        stray := if s.removed channel then s.stray ++ [channel] else s.stray }
  | .handled =>
    if s.activeChannels = [] then
      some { s with poller := { s.poller with currentActiveChannel := none } }
    else none
  | .call channel op => some { s with
      poller := s.poller.call fd channel op
      removed := Function.update s.removed channel (decide (op = .remove)) }

/-- Nothing points to a channel that has been removed: not the poller, and not the loop, as
the channel it is handling or as one of those it has still to handle. -/
def Gone (s : ChannelLoop κ) : Prop :=
  ∀ c, s.removed c = true → s.poller.Unheld c ∧ s.poller.currentActiveChannel ≠ some c ∧
    c ∉ s.activeChannels

/-- Whatever happens from here on: until the channel is registered again, the loop does not
come to call `handleEvent` on it. -/
def NotCalled (s : ChannelLoop κ) (c : κ) : Prop :=
  ∀ later t, (∀ o, .call c o ∈ later → o = .remove) →
    Machine.run (step fd) s later = some t → t.activeChannels.head? ≠ some c

/-- What `removeChannel` is for: the poller holds no reference to a channel that has been
removed, and its `handleEvent` is not called until it is registered again. -/
def Released (s : ChannelLoop κ) : Prop :=
  ∀ c, s.removed c = true → s.poller.Unheld c ∧ s.NotCalled fd c

/-- A channel is removed neither in its own handler nor while it waits to be handled. -/
def RemovesIdle (s : ChannelLoop κ) : ChannelLoopOp κ → Prop
  | .call c .remove => s.poller.currentActiveChannel ≠ some c ∧ c ∉ s.activeChannels
  | _ => True

instance (s : ChannelLoop κ) : ∀ op, Decidable (s.RemovesIdle op)
  | .call _ .remove => inferInstanceAs (Decidable (_ ≠ _ ∧ _ ∉ _))
  | .call _ .enableReading | .call _ .disableReading | .call _ .enableWriting
  | .call _ .disableWriting | .call _ .disableAll | .poll _ | .handleEvent | .handled =>
    inferInstanceAs (Decidable True)

variable {fd} {s s' : ChannelLoop κ} {op : ChannelLoopOp κ}

theorem step_poll {ready : List Fd} (h : s.step fd (.poll ready) = some s') :
    s.poller.currentActiveChannel = none ∧
      s' = { s with activeChannels := fillActiveChannels s.poller ready } := by
  obtain ⟨⟨-, hcurrent, -⟩, heq⟩ := Option.ite_none_right_eq_some.mp h
  exact ⟨hcurrent, (Option.some.inj heq).symm⟩

theorem step_handleEvent (h : s.step fd .handleEvent = some s') :
    ∃ c rest, s.activeChannels = c :: rest ∧ s' = { s with
      poller := { s.poller with currentActiveChannel := some c }
      activeChannels := rest
      stray := if s.removed c then s.stray ++ [c] else s.stray } := by
  simp only [step] at h
  split at h
  · cases h
  · rename_i c rest hactive
    exact ⟨c, rest, hactive, (Option.some.inj h).symm⟩

theorem step_handled (h : s.step fd .handled = some s') :
    s' = { s with poller := { s.poller with currentActiveChannel := none } } := by
  obtain ⟨-, heq⟩ := Option.ite_none_right_eq_some.mp h
  exact (Option.some.inj heq).symm

theorem step_own (hs : s.poller.Own fd) (h : s.step fd op = some s') : s'.poller.Own fd := by
  cases op with
  | poll ready =>
    obtain ⟨-, rfl⟩ := step_poll h
    exact hs
  | handleEvent =>
    obtain ⟨c, rest, -, rfl⟩ := step_handleEvent h
    exact ⟨hs.mapped, hs.kernel⟩
  | handled =>
    rw [step_handled h]
    exact ⟨hs.mapped, hs.kernel⟩
  | call c o =>
    obtain rfl := Option.some.inj h
    exact hs.call c o

omit [DecidableEq κ] in
/-- The poller reports only channels it holds. -/
theorem notMem_fillActiveChannels {p : EpollPoller κ} {c : κ} (h : p.Unheld c) (ready : List Fd) :
    c ∉ fillActiveChannels p ready := by
  intro hmem
  obtain ⟨f, -, hf⟩ := List.mem_filterMap.mp hmem
  obtain ⟨⟨d, e⟩, hentry, rfl⟩ := Option.map_eq_some_iff.mp hf
  exact h.kernel f e hentry

/-- Nothing comes to point to a channel by a step that does not register it; if the step
removes it, it was idle. -/
theorem unreferenced_step (hs : s.poller.Own fd) {c : κ}
    (hc : s.poller.Unheld c ∧ s.poller.currentActiveChannel ≠ some c ∧ c ∉ s.activeChannels)
    (hop : ∀ o, op = .call c o → o = .remove) (h : s.step fd op = some s') :
    s'.poller.Unheld c ∧ s'.poller.currentActiveChannel ≠ some c ∧ c ∉ s'.activeChannels := by
  obtain ⟨hunheld, hcurrent, hnot⟩ := hc
  cases op with
  | call d o =>
    obtain rfl := Option.some.inj h
    rw [EpollPoller.call_currentActiveChannel]
    refine ⟨?_, hcurrent, hnot⟩
    by_cases hd : c = d
    · subst hd
      obtain rfl := hop o rfl
      have hcall : s.poller.call fd c .remove = s.poller.removeChannel fd c := if_neg hcurrent
      rw [hcall]
      exact (hs.removeChannel c).2
    · exact hunheld.call hd o
  | poll ready =>
    obtain ⟨-, rfl⟩ := step_poll h
    exact ⟨hunheld, hcurrent, notMem_fillActiveChannels hunheld ready⟩
  | handleEvent =>
    obtain ⟨d, rest, hactive, rfl⟩ := step_handleEvent h
    rw [hactive] at hnot
    refine ⟨⟨hunheld.mapped, hunheld.kernel⟩, fun heq => hnot ?_, fun hmem => hnot ?_⟩
    · rw [Option.some.inj heq]
      exact List.mem_cons_self
    · exact List.mem_cons_of_mem _ hmem
  | handled =>
    rw [step_handled h]
    exact ⟨⟨hunheld.mapped, hunheld.kernel⟩, (Option.some_ne_none c).symm, hnot⟩

/-- A channel that is removed while it is idle. -/
theorem unreferenced_of_remove (hs : s.poller.Own fd) {c : κ}
    (hidle : s.RemovesIdle (.call c .remove)) (h : s.step fd (.call c .remove) = some s') :
    s'.poller.Unheld c ∧ s'.poller.currentActiveChannel ≠ some c ∧ c ∉ s'.activeChannels := by
  obtain rfl := Option.some.inj h
  rw [EpollPoller.call_currentActiveChannel]
  refine ⟨?_, hidle⟩
  have hcall : s.poller.call fd c .remove = s.poller.removeChannel fd c := if_neg hidle.1
  rw [hcall]
  exact (hs.removeChannel c).2

/-- Only a call on a channel changes whether it counts as removed. -/
theorem removed_step (h : s.step fd op = some s') (c : κ) :
    (∀ o, op ≠ .call c o) ∧ s'.removed c = s.removed c ∨
      ∃ o, op = .call c o ∧ s'.removed c = decide (o = .remove) := by
  cases op with
  | call d o =>
    obtain rfl := Option.some.inj h
    by_cases hd : c = d
    · subst hd
      exact .inr ⟨o, rfl, Function.update_self ..⟩
    · refine .inl ⟨fun o' heq => ?_, Function.update_of_ne hd ..⟩
      cases heq
      exact hd rfl
  | poll ready =>
    obtain ⟨-, rfl⟩ := step_poll h
    exact .inl ⟨nofun, rfl⟩
  | handleEvent =>
    obtain ⟨d, rest, -, rfl⟩ := step_handleEvent h
    exact .inl ⟨nofun, rfl⟩
  | handled =>
    rw [step_handled h]
    exact .inl ⟨nofun, rfl⟩

theorem Gone.step (hgone : s.Gone) (hs : s.poller.Own fd) (hidle : s.RemovesIdle op)
    (h : s.step fd op = some s') : s'.Gone := by
  intro c hc
  rcases removed_step h c with ⟨hother, hsame⟩ | ⟨o, rfl, hremoved⟩
  · exact unreferenced_step hs (hgone c (hsame.symm.trans hc)) (fun o ho => absurd ho (hother o)) h
  · obtain rfl : o = .remove := of_decide_eq_true (hremoved.symm.trans hc)
    exact unreferenced_of_remove hs hidle h

/-- What nothing points to is not called. -/
theorem Gone.released (hgone : s.Gone) (hs : s.poller.Own fd) : s.Released fd := by
  intro c hc
  refine ⟨(hgone c hc).1, fun later t hlater hrun hhead => ?_⟩
  have hstays : t.poller.Own fd ∧ t.poller.Unheld c ∧
      t.poller.currentActiveChannel ≠ some c ∧ c ∉ t.activeChannels := by
    refine Machine.run_invariant_mem (P := fun t : ChannelLoop κ => t.poller.Own fd ∧
      t.poller.Unheld c ∧ t.poller.currentActiveChannel ≠ some c ∧ c ∉ t.activeChannels)
      (fun op hop t t' ht h => ?_) hrun ⟨hs, hgone c hc⟩
    exact ⟨step_own ht.1 h, unreferenced_step ht.1 ht.2 (fun o heq => hlater o (heq ▸ hop)) h⟩
  exact hstays.2.2.2 (List.mem_of_head? hhead)

/-- A removal after which nothing points to the channel was made while it was idle. -/
theorem Gone.removesIdle (h : s.step fd op = some s') (hgone : s'.Gone) : s.RemovesIdle op := by
  cases op with
  | poll | handleEvent | handled => trivial
  | call c o =>
    cases o with
    | enableReading | disableReading | enableWriting | disableWriting | disableAll => trivial
    | remove =>
      obtain rfl := Option.some.inj h
      obtain ⟨-, hcurrent, hnot⟩ := hgone c (Function.update_self ..)
      rw [EpollPoller.call_currentActiveChannel] at hcurrent
      exact ⟨hcurrent, hnot⟩

/-- Channels that are gone are not called. -/
theorem Gone.stray (hgone : s.Gone) (hstray : s.stray = []) (h : s.step fd op = some s') :
    s'.stray = [] := by
  cases op with
  | poll ready =>
    obtain ⟨-, rfl⟩ := step_poll h
    exact hstray
  | handleEvent =>
    obtain ⟨c, rest, hactive, rfl⟩ := step_handleEvent h
    have hc : s.removed c = false := by
      by_contra hremoved
      rw [Bool.not_eq_false] at hremoved
      exact (hgone c hremoved).2.2 (hactive ▸ List.mem_cons_self)
    simp only [hc, hstray]
    rfl
  | handled =>
    rw [step_handled h]
    exact hstray
  | call c o =>
    obtain rfl := Option.some.inj h
    exact hstray

/-! ## Why the condition is needed -/

/-- A channel that is being handled, or that waits to be, is registered, unless it has been
removed. -/
def Known (s : ChannelLoop κ) : Prop :=
  ∀ c, s.poller.currentActiveChannel = some c ∨ c ∈ s.activeChannels → s.removed c = false →
    s.poller.index c ≠ .kNew

theorem updatedIndex_ne_kNew (e : Events) (idx : Index) :
    EpollPoller.updatedIndex e idx ≠ .kNew := by
  unfold EpollPoller.updatedIndex
  split
  · simp
  · split <;> simp
  · simp

theorem Known.step (hknown : s.Known) (hs : s.poller.Own fd) (hvalid : s.poller.Valid fd)
    (h : s.step fd op = some s') : s'.Known := by
  intro c hc hremoved
  cases op with
  | poll ready =>
    obtain ⟨hcurrent, rfl⟩ := step_poll h
    rcases hc with hc | hc
    · exact hknown c (.inl hc) hremoved
    · obtain ⟨f, -, hf⟩ := List.mem_filterMap.mp hc
      obtain ⟨⟨d, e⟩, hentry, rfl⟩ := Option.map_eq_some_iff.mp hf
      simp [(hs.kernel f d e hentry).2]
  | handleEvent =>
    obtain ⟨d, rest, hactive, rfl⟩ := step_handleEvent h
    refine hknown c (.inr ?_) hremoved
    rw [hactive]
    rcases hc with hc | hc
    · rw [Option.some.inj hc]
      exact List.mem_cons_self
    · exact List.mem_cons_of_mem _ hc
  | handled =>
    rw [step_handled h] at hc hremoved ⊢
    rcases hc with hc | hc
    · cases hc
    · exact hknown c (.inr hc) hremoved
  | call d o =>
    obtain rfl := Option.some.inj h
    rw [EpollPoller.call_currentActiveChannel] at hc
    show (s.poller.call fd d o).index c ≠ .kNew
    by_cases hd : c = d
    · subst hd
      have ho : o ≠ .remove := by simpa using hremoved
      rcases hvalid.call_eq c o with ⟨hrefused, -⟩ | ⟨-, heq⟩
      · exact absurd hrefused.1 ho
      · rw [heq]
        show Function.update s.poller.index c _ c ≠ .kNew
        rw [Function.update_self]
        cases o with
        | remove => exact absurd rfl ho
        | enableReading | disableReading | enableWriting | disableWriting | disableAll =>
          exact updatedIndex_ne_kNew _ _
    · have hremoved' : s.removed c = false := by
        simpa [Function.update_of_ne hd] using hremoved
      have hindex := hknown c hc hremoved'
      rcases hvalid.call_eq d o with ⟨-, heq⟩ | ⟨-, heq⟩
      · rwa [heq]
      · rw [heq]
        show Function.update s.poller.index d _ c ≠ .kNew
        rwa [Function.update_of_ne hd]

theorem step_valid (hfd : Function.Injective fd) (hs : s.poller.Valid fd)
    (h : s.step fd op = some s') : s'.poller.Valid fd := by
  cases op with
  | poll ready =>
    obtain ⟨-, rfl⟩ := step_poll h
    exact hs
  | handleEvent =>
    obtain ⟨c, rest, -, rfl⟩ := step_handleEvent h
    exact ⟨hs.kernel, hs.mapped, hs.noFailure⟩
  | handled =>
    rw [step_handled h]
    exact ⟨hs.kernel, hs.mapped, hs.noFailure⟩
  | call c o =>
    obtain rfl := Option.some.inj h
    exact EpollPoller.step_valid (i := .call c o) hfd hs rfl

variable (fd) in
/-- The loop comes to every channel of the batch. -/
theorem reaches_of_mem {c : κ} (hc : c ∈ s.activeChannels) :
    ∃ n t, Machine.run (step fd) s (List.replicate n .handleEvent) = some t ∧
      t.activeChannels.head? = some c := by
  induction hactive : s.activeChannels generalizing s with
  | nil =>
    rw [hactive] at hc
    cases hc
  | cons d rest ih =>
    by_cases hd : c = d
    · subst hd
      exact ⟨0, s, rfl, by rw [hactive]; rfl⟩
    · obtain ⟨u, hu, hrest⟩ : ∃ u, s.step fd .handleEvent = some u ∧ u.activeChannels = rest := by
        simp only [step, hactive]
        exact ⟨_, rfl, rfl⟩
      rw [hactive] at hc
      have hmem : c ∈ u.activeChannels := hrest ▸ (List.mem_cons.mp hc).resolve_left hd
      obtain ⟨n, t, hrun, hhead⟩ := ih hmem hrest
      exact ⟨n + 1, t, Machine.run_cons_eq_some.mpr ⟨u, hu, hrun⟩, hhead⟩

/-- A channel that is removed in its own handler stays with the poller, and one that is removed
while it waits is called. -/
theorem Released.removesIdle (hgone : s.Gone) (hvalid : s.poller.Valid fd) (hknown : s.Known)
    (h : s.step fd op = some s') (hreleased : s'.Released fd) : s.RemovesIdle op := by
  cases op with
  | poll | handleEvent | handled => trivial
  | call c o =>
    cases o with
    | enableReading | disableReading | enableWriting | disableWriting | disableAll => trivial
    | remove =>
      have hs' := (Option.some.inj h).symm
      have hmarked : s'.removed c = true := by
        rw [hs']
        exact Function.update_self ..
      obtain ⟨hunheld, hnotCalled⟩ := hreleased c hmarked
      refine ⟨fun hcurrent => ?_, fun hmem => ?_⟩
      · have hremoved : s.removed c = false :=
          Bool.eq_false_iff.mpr fun hremoved => (hgone c hremoved).2.1 hcurrent
        have hcall : s.poller.call fd c .remove = s.poller := if_pos hcurrent
        refine hunheld.mapped (fd c) ?_
        rw [hs']
        show (s.poller.call fd c .remove).channels (fd c) = some c
        rw [hcall, hvalid.mapped c]
        cases hidx : s.poller.index c with
        | kNew => exact absurd hidx (hknown c (.inl hcurrent) hremoved)
        | kAdded | kDeleted => rfl
      · have hwaits : c ∈ s'.activeChannels := by
          rw [hs']
          exact hmem
        obtain ⟨n, t, hrun, hhead⟩ := reaches_of_mem fd hwaits
        refine hnotCalled _ t (fun o ho => ?_) hrun hhead
        cases (List.mem_replicate.mp ho).2

/-- **A removed channel is gone.**  Whatever channels are removed at whatever points of a
run: from the removal until the channel is registered again nothing points to it any more,
neither the poller nor the loop, exactly when no channel is removed in its own handler or
while it waits in the batch to be handled.  In such a run the poller holds no reference to a
channel that has been removed and not registered again, and `handleEvent` is never called on
it; and if the channels have distinct descriptors, it is so in no other runs. -/
theorem removed_gone_iff {ops : List (ChannelLoopOp κ)}
    (hrun : Machine.run (step fd) initial ops = some s) :
    (Machine.Throughout (step fd) Gone initial ops ↔
        Machine.Along (step fd) RemovesIdle initial ops) ∧
      (Machine.Along (step fd) RemovesIdle initial ops →
        Machine.Throughout (step fd) (Released fd) initial ops ∧ s.stray = []) ∧
      (Function.Injective fd → Machine.Throughout (step fd) (Released fd) initial ops →
        Machine.Along (step fd) RemovesIdle initial ops) := by
  have hinitial : (initial : ChannelLoop κ).Gone := by simp [initial, Gone]
  refine ⟨?_, fun hidle => ⟨?_, ?_⟩, fun hfd => ?_⟩
  · refine Machine.throughout_iff_along (I := fun s => s.poller.Own fd) (Q := Gone)
      (fun _ _ _ _ hs h => step_own hs h)
      (fun _ _ _ _ hs hgone hidle h => hgone.step hs hidle h)
      (fun _ _ _ _ _ _ h hgone => hgone.removesIdle h) (fun _ hgone => hgone) hrun
      EpollPoller.initial_own hinitial
  · refine Machine.throughout_of_along (Q := fun s => s.poller.Own fd ∧ s.Gone) ?_
      (fun _ hs => hs.2.released hs.1) hrun ⟨EpollPoller.initial_own, hinitial⟩ hidle
    exact fun _ _ _ _ hs hidle h => ⟨step_own hs.1 h, hs.2.step hs.1 hidle h⟩
  · have hinv : s.poller.Own fd ∧ s.Gone ∧ s.stray = [] := by
      refine Machine.run_invariant_along
        (P := fun s => s.poller.Own fd ∧ s.Gone ∧ s.stray = []) ?_ hrun hidle
        ⟨EpollPoller.initial_own, hinitial, rfl⟩
      rintro s op s' ⟨hs, hgone, hstray⟩ hidle h
      exact ⟨step_own hs h, hgone.step hs hidle h, hgone.stray hstray h⟩
    exact hinv.2.2
  · refine (Machine.throughout_iff_along
      (I := fun s => s.poller.Own fd ∧ s.poller.Valid fd ∧ s.Known)
      (Q := fun s => s.poller.Own fd ∧ s.Gone) ?_ ?_ ?_ ?_ hrun
      ⟨EpollPoller.initial_own, EpollPoller.initial_valid fd,
        by simp [initial, Known, EpollPoller.initial]⟩
      ⟨EpollPoller.initial_own, hinitial⟩).mp
    · rintro op - s s' ⟨hs, hvalid, hknown⟩ h
      exact ⟨step_own hs h, step_valid hfd hvalid h, hknown.step hs hvalid h⟩
    · exact fun _ _ _ _ _ hs hidle h => ⟨step_own hs.1 h, hs.2.step hs.1 hidle h⟩
    · exact fun _ _ _ _ hI hs h hreleased => hreleased.removesIdle hs.2 hI.2.1 hI.2.2 h
    · exact fun _ hs => hs.2.released hs.1

/-- A channel is removed after its turn, in the handler of the next one, and another one with
the same descriptor is registered. -/
def removedAfterTurn : List (ChannelLoopOp (Nat × Bool)) :=
  [.call (3, false) .enableReading, .call (5, false) .enableReading, .poll [3, 5], .handleEvent,
    .handleEvent, .call (3, false) .remove, .call (3, true) .enableReading, .handled, .poll [3],
    .handleEvent]

theorem removed_gone_removedAfterTurn :
    ∃ s, Machine.run (step Prod.fst) initial removedAfterTurn = some s ∧
      s.removed (3, false) = true ∧ s.poller.currentActiveChannel = some (3, true) ∧
      Machine.Throughout (step Prod.fst) Gone initial removedAfterTurn ∧
      Machine.Throughout (step Prod.fst) (Released Prod.fst) initial removedAfterTurn ∧
      s.stray = [] := by
  obtain ⟨s, hs⟩ : ∃ s, Machine.run (step Prod.fst) initial removedAfterTurn = some s :=
    ⟨_, rfl⟩
  have hidle : Machine.Along (step Prod.fst) RemovesIdle initial removedAfterTurn := by
    decide +kernel
  obtain ⟨hiff, hreleased, -⟩ := removed_gone_iff hs
  refine ⟨s, hs, ?_, ?_, hiff.mpr hidle, hreleased hidle⟩
  · obtain rfl := Option.some.inj hs
    rfl
  · obtain rfl := Option.some.inj hs
    rfl

/-- In its own handler a channel is not removed: the poller keeps it.  A channel that is
removed in the handler of another one, before its turn, is handled all the same. -/
theorem removed_and_held :
    (∃ s, Machine.run (step id) initial
        [.call 3 .enableReading, .poll [3], .handleEvent, .call 3 .remove] = some s ∧
      s.removed 3 = true ∧ s.poller.channels 3 = some 3 ∧
      s.poller.epoll 3 = some (3, ⟨true, false⟩)) ∧
    ∃ s, Machine.run (step id) initial
        [.call 3 .enableReading, .call 5 .enableReading, .poll [3, 5], .handleEvent,
          .call 5 .disableAll, .call 5 .remove, .handleEvent] = some s ∧
      s.removed 5 = true ∧ s.stray = [5] :=
  ⟨⟨_, rfl, rfl, rfl, rfl⟩, _, rfl, rfl, rfl⟩

end ChannelLoop
end ReMuduo
