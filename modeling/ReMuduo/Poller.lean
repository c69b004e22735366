import Mathlib.Logic.Function.Basic
import ReMuduo.Channel
import ReMuduo.Machine

/-! # The poller and the kernel's interest set

All the channels of a loop together: `EpollPoller` (`src/base/EpollPoller.cpp`),
`Poller::hasChannel` (`src/base/Poller.cpp`), the calls of `Channel` that end in it
(`include/Channel.h`) and the refusal of `EventLoop::removeChannel`
(`src/base/Eventloop.cpp`).

What is registered is kept three times: in the index of each channel, in `channels_`,
and in the kernel.  `Valid` says that the three agree, channel by channel, and that no
`epoll_ctl` has failed; every call on the loop thread keeps it.  From there the channel
alone determines what the poller and the kernel hold for it, which is how
`ReMuduo.Channel` models it (`view_call`). -/
namespace ReMuduo

/-- A file descriptor. -/
abbrev Fd := Nat

/-- The interest set of an epoll instance: for each file descriptor in it, the user data
and the events it was registered with. -/
abbrev InterestSet (κ : Type) := Fd → Option (κ × Events)

/-- `epoll_ctl`; `none` if the call fails. -/
def InterestSet.ctl {κ : Type} (set : InterestSet κ) (operation : EpollOp) (fd : Fd)
    (event : κ × Events) : Option (InterestSet κ) :=
  match operation, set fd with
  | .add, none => some (Function.update set fd (some event))
  | .mod, some _ => some (Function.update set fd (some event))
  | .del, some _ => some (Function.update set fd none)
  | .add, some _ => none
  | .mod, none => none
  | .del, none => none

/-- The members of the poller and of its channels, which are named by `κ` (the `Channel*`
of the source): `Events` and `Index` of every channel, `channels_`, the kernel's
interest set, the `epoll_ctl` calls that failed, and `currentActiveChannel_` of the
loop. -/
structure EpollPoller (κ : Type) where
  events : κ → Events
  index : κ → Index
  channels : Fd → Option κ
  epoll : InterestSet κ
  failures : List (EpollOp × Fd)
  currentActiveChannel : Option κ

/-- The calls on a channel that reach the poller. -/
inductive ChannelCall
  | enableReading
  | disableReading
  | enableWriting
  | disableWriting
  | disableAll
  | remove
deriving DecidableEq

/-- What happens on the loop thread: a call on a channel, or the loop sets
`currentActiveChannel_`. -/
inductive PollerInput (κ : Type)
  | call (channel : κ) (call : ChannelCall)
  | active (channel : Option κ)

/-- The events of interest after a call: `remove` does not touch them. -/
def ChannelCall.events (e : Events) : ChannelCall → Events
  | .enableReading => { e with read := true }
  | .disableReading => { e with read := false }
  | .enableWriting => { e with write := true }
  | .disableWriting => { e with write := false }
  | .disableAll => kNoneEvent
  | .remove => e

/-- A call on a channel taken by itself. -/
def Channel.call (ch : Channel) : ChannelCall → Channel
  | .enableReading => ch.enableReading
  | .disableReading => ch.disableReading
  | .enableWriting => ch.enableWriting
  | .disableWriting => ch.disableWriting
  | .disableAll => ch.disableAll
  | .remove => ch.removeChannel

namespace EpollPoller

variable {κ : Type} [DecidableEq κ] (fd : κ → Fd)

/-- A new poller: no channel has been registered. -/
def initial : EpollPoller κ where
  events := fun _ => kNoneEvent
  index := fun _ => .kNew
  channels := fun _ => none
  epoll := fun _ => none
  failures := []
  currentActiveChannel := none

/-- `update(operation, channel)`: an error of `epoll_ctl` has no consequence in the source
(its log lines are commented out); here it is recorded. -/
def update (p : EpollPoller κ) (operation : EpollOp) (channel : κ) : EpollPoller κ :=
  match p.epoll.ctl operation (fd channel) (channel, p.events channel) with
  | some set => { p with epoll := set }
  | none => { p with failures := p.failures ++ [(operation, fd channel)] }

/-- `channel->setIndex(idx)`. -/
def setIndex (p : EpollPoller κ) (channel : κ) (idx : Index) : EpollPoller κ :=
  { p with index := Function.update p.index channel idx }

/-- `updateChannel(channel)`. -/
def updateChannel (p : EpollPoller κ) (channel : κ) : EpollPoller κ :=
  match p.index channel with
  | .kNew =>
    (({ p with channels := Function.update p.channels (fd channel) (some channel) } :
      EpollPoller κ).setIndex channel .kAdded).update fd .add channel
  | .kDeleted => (p.setIndex channel .kAdded).update fd .add channel
  | .kAdded =>
    if p.events channel = kNoneEvent then (p.update fd .del channel).setIndex channel .kDeleted
    else p.update fd .mod channel

/-- `removeChannel(channel)`. -/
def removeChannel (p : EpollPoller κ) (channel : κ) : EpollPoller κ :=
  let q : EpollPoller κ := { p with channels := Function.update p.channels (fd channel) none }
  if p.index channel = .kAdded then (q.update fd .del channel).setIndex channel .kNew
  else q.setIndex channel .kNew

/-- `Poller::hasChannel(channel)`. -/
def hasChannel (p : EpollPoller κ) (channel : κ) : Bool :=
  match p.channels (fd channel) with
  | some c => decide (c = channel)
  | none => false

/-- A call on a channel.  `EventLoop::removeChannel` refuses the channel that is being
handled. -/
def call (p : EpollPoller κ) (channel : κ) : ChannelCall → EpollPoller κ
  | .remove => if p.currentActiveChannel = some channel then p else p.removeChannel fd channel
  | op =>
    ({ p with events := Function.update p.events channel (op.events (p.events channel)) } :
      EpollPoller κ).updateChannel fd channel

/-- No call on the loop thread is impossible. -/
def step (p : EpollPoller κ) : PollerInput κ → Option (EpollPoller κ)
  | .call channel op => some (p.call fd channel op)
  | .active channel => some { p with currentActiveChannel := channel }

/-! ## The three copies agree -/

/-- What the kernel should hold for a channel. -/
def kernelEntry (channel : κ) (e : Events) : Index → Option (κ × Events)
  | .kNew => none
  | .kAdded => some (channel, e)
  | .kDeleted => none

/-- What `channels_` should hold for a channel. -/
def mapEntry (channel : κ) : Index → Option κ
  | .kNew => none
  | .kAdded => some channel
  | .kDeleted => some channel

/-- Channel by channel, `channels_` and the kernel hold what the index says, and no
`epoll_ctl` has failed. -/
structure Valid (p : EpollPoller κ) : Prop where
  kernel : ∀ c, p.epoll (fd c) = kernelEntry c (p.events c) (p.index c)
  mapped : ∀ c, p.channels (fd c) = mapEntry c (p.index c)
  noFailure : p.failures = []

omit [DecidableEq κ] in
theorem initial_valid : Valid fd (initial : EpollPoller κ) := ⟨fun _ => rfl, fun _ => rfl, rfl⟩

/-- The poller in which the channel has the events `e` and the index `idx`, and everything
else about it follows. -/
def registered (p : EpollPoller κ) (channel : κ) (e : Events) (idx : Index) : EpollPoller κ :=
  { p with
    events := Function.update p.events channel e
    index := Function.update p.index channel idx
    channels := Function.update p.channels (fd channel) (mapEntry channel idx)
    epoll := Function.update p.epoll (fd channel) (kernelEntry channel e idx) }

variable {fd} {p : EpollPoller κ}

theorem Valid.registered (hfd : Function.Injective fd) (h : Valid fd p) (c : κ) (e : Events)
    (idx : Index) : Valid fd (p.registered fd c e idx) := by
  refine ⟨fun d => ?_, fun d => ?_, h.noFailure⟩
  · by_cases hd : d = c
    · subst hd
      simp only [EpollPoller.registered, Function.update_self]
    · simp only [EpollPoller.registered, Function.update_of_ne (hfd.ne hd),
        Function.update_of_ne hd]
      exact h.kernel d
  · by_cases hd : d = c
    · subst hd
      simp only [EpollPoller.registered, Function.update_self]
    · simp only [EpollPoller.registered, Function.update_of_ne (hfd.ne hd),
        Function.update_of_ne hd]
      exact h.mapped d

/-- The index after `updateChannel`, for a channel that now has the events `e`. -/
def updatedIndex (e : Events) : Index → Index
  | .kNew => .kAdded
  | .kAdded => if e = kNoneEvent then .kDeleted else .kAdded
  | .kDeleted => .kAdded

/-- **One spec for `updateChannel`**: after the events of a channel have been changed, each
of its branches makes the one `epoll_ctl` call that succeeds. -/
theorem Valid.updateChannel_eq (h : Valid fd p) (c : κ) (e : Events) :
    ({ p with events := Function.update p.events c e } : EpollPoller κ).updateChannel fd c =
      p.registered fd c e (updatedIndex e (p.index c)) := by
  have hkernel := h.kernel c
  have hmapped := h.mapped c
  cases hidx : p.index c with
  | kNew =>
    rw [hidx, kernelEntry] at hkernel
    simp [updateChannel, setIndex, update, InterestSet.ctl, EpollPoller.registered, updatedIndex,
      kernelEntry, mapEntry, hidx, hkernel]
  | kDeleted =>
    rw [hidx, kernelEntry] at hkernel
    rw [hidx, mapEntry] at hmapped
    -- `channels_` has the channel already
    have hsame : Function.update p.channels (fd c) (some c) = p.channels := by
      rw [← hmapped, Function.update_eq_self]
    simp [updateChannel, setIndex, update, InterestSet.ctl, EpollPoller.registered, updatedIndex,
      kernelEntry, mapEntry, hidx, hkernel, hsame]
  | kAdded =>
    rw [hidx, kernelEntry] at hkernel
    rw [hidx, mapEntry] at hmapped
    have hsame : Function.update p.channels (fd c) (some c) = p.channels := by
      rw [← hmapped, Function.update_eq_self]
    by_cases he : e = kNoneEvent
    · simp [updateChannel, setIndex, update, InterestSet.ctl, EpollPoller.registered, updatedIndex,
        kernelEntry, mapEntry, hidx, hkernel, hsame, he]
    · have hindex : Function.update p.index c .kAdded = p.index := by
        rw [← hidx, Function.update_eq_self]
      simp [updateChannel, update, InterestSet.ctl, EpollPoller.registered, updatedIndex,
        kernelEntry, mapEntry, hidx, hkernel, hsame, hindex, he]

theorem Valid.removeChannel_eq (h : Valid fd p) (c : κ) :
    p.removeChannel fd c = p.registered fd c (p.events c) .kNew := by
  have hkernel := h.kernel c
  cases hidx : p.index c with
  | kAdded =>
    rw [hidx, kernelEntry] at hkernel
    simp [removeChannel, setIndex, update, InterestSet.ctl, EpollPoller.registered, kernelEntry,
      mapEntry, hidx, hkernel, Function.update_eq_self]
  | kNew | kDeleted =>
    rw [hidx, kernelEntry] at hkernel
    have hsame : Function.update p.epoll (fd c) none = p.epoll := by
      rw [← hkernel, Function.update_eq_self]
    simp [removeChannel, setIndex, EpollPoller.registered, kernelEntry, mapEntry, hidx, hsame,
      Function.update_eq_self]

/-- The index after a call that is not refused; `e` are the events after it. -/
def indexAfter (e : Events) (idx : Index) : ChannelCall → Index
  | .remove => .kNew
  | _ => updatedIndex e idx

/-- The loop refuses to remove the channel it is handling. -/
def Refused (p : EpollPoller κ) (c : κ) (op : ChannelCall) : Prop :=
  op = .remove ∧ p.currentActiveChannel = some c

/-- A call sets the events and the index of its channel, and the rest follows. -/
theorem Valid.call_eq (h : Valid fd p) (c : κ) (op : ChannelCall) :
    (p.Refused c op ∧ p.call fd c op = p) ∨
      (¬ p.Refused c op ∧ p.call fd c op =
        p.registered fd c (op.events (p.events c))
          (indexAfter (op.events (p.events c)) (p.index c) op)) := by
  cases op with
  | remove =>
    by_cases hactive : p.currentActiveChannel = some c
    · exact Or.inl ⟨⟨rfl, hactive⟩, if_pos hactive⟩
    · exact Or.inr ⟨fun hr => hactive hr.2, (if_neg hactive).trans (h.removeChannel_eq c)⟩
  | enableReading | disableReading | enableWriting | disableWriting | disableAll =>
    exact Or.inr ⟨fun hr => ChannelCall.noConfusion hr.1, h.updateChannel_eq c _⟩

theorem step_valid (hfd : Function.Injective fd) {p' : EpollPoller κ} {i : PollerInput κ}
    (h : Valid fd p) (hstep : p.step fd i = some p') : Valid fd p' := by
  cases i with
  | call c op =>
    obtain rfl := Option.some.inj hstep
    rcases h.call_eq c op with ⟨-, heq⟩ | ⟨-, heq⟩
    · rw [heq]
      exact h
    · rw [heq]
      exact h.registered hfd c _ _
  | active c =>
    obtain rfl := Option.some.inj hstep
    exact ⟨h.kernel, h.mapped, h.noFailure⟩

theorem run_valid (hfd : Function.Injective fd) {is : List (PollerInput κ)}
    (h : Machine.run (step fd) initial is = some p) : Valid fd p :=
  Machine.run_invariant (fun _ _ _ hp hstep => step_valid hfd hp hstep) h (initial_valid fd)

theorem Valid.hasChannel_iff (h : Valid fd p) (c : κ) :
    p.hasChannel fd c = true ↔ p.index c ≠ .kNew := by
  rw [hasChannel, h.mapped c]
  cases p.index c <;> simp [mapEntry]

/-- **The poller agrees with the kernel**, after every sequence of calls on channels with
distinct file descriptors: no `epoll_ctl` has failed; a channel has index `kAdded` exactly
when its file descriptor is in the interest set, and the entry there carries that channel
and its current events; `channels_` has the channel under its file descriptor exactly
when its index is not `kNew`, and `hasChannel` answers the same. -/
theorem poller_agrees_with_kernel (hfd : Function.Injective fd) {is : List (PollerInput κ)}
    (hrun : Machine.run (step fd) initial is = some p) :
    p.failures = [] ∧ ∀ c,
      (p.index c = .kAdded ↔ ∃ entry, p.epoll (fd c) = some entry) ∧
      (∀ entry, p.epoll (fd c) = some entry → entry = (c, p.events c)) ∧
      (p.channels (fd c) = some c ↔ p.index c ≠ .kNew) ∧
      (p.hasChannel fd c = true ↔ p.index c ≠ .kNew) := by
  have h := run_valid hfd hrun
  refine ⟨h.noFailure, fun c => ⟨?_, ?_, ?_, h.hasChannel_iff c⟩⟩
  · rw [h.kernel c]
    cases p.index c <;> simp [kernelEntry]
  · intro entry hentry
    rw [h.kernel c] at hentry
    cases hidx : p.index c with
    | kAdded =>
      rw [hidx] at hentry
      exact (Option.some.inj hentry).symm
    | kNew | kDeleted =>
      rw [hidx] at hentry
      cases hentry
  · rw [h.mapped c]
    cases p.index c <;> simp [mapEntry]

/-- Two channels: one is added, emptied and added again, the other is added and removed
while the first is being handled. -/
def twoChannels : List (PollerInput Nat) :=
  [.call 3 .enableReading, .call 3 .disableAll, .call 5 .enableWriting, .active (some 3),
    .call 3 .enableWriting, .call 3 .remove, .call 5 .remove]

theorem poller_agrees_with_kernel_twoChannels :
    ∃ p, Machine.run (step id) initial twoChannels = some p ∧ p.failures = [] ∧
      p.epoll 3 = some (3, ⟨false, true⟩) ∧ p.index 3 = .kAdded ∧ p.hasChannel id 5 = false := by
  obtain ⟨p, hp⟩ : ∃ p, Machine.run (step id) initial twoChannels = some p := ⟨_, rfl⟩
  have h := poller_agrees_with_kernel Function.injective_id hp
  obtain rfl := Option.some.inj hp
  exact ⟨_, rfl, h.1, rfl, ((h.2 3).1).mpr ⟨_, rfl⟩, rfl⟩

/-! ## One channel at a time -/

/-- What the poller holds for one channel. -/
def view (fd : κ → Fd) (p : EpollPoller κ) (c : κ) : Channel where
  events := p.events c
  index := p.index c
  mapped := p.hasChannel fd c
  epoll := (p.epoll (fd c)).map Prod.snd

/-- A channel alone whose entries agree with its index. -/
def alone (e : Events) : Index → Channel
  | .kNew => ⟨e, .kNew, false, none⟩
  | .kAdded => ⟨e, .kAdded, true, some e⟩
  | .kDeleted => ⟨e, .kDeleted, true, none⟩

theorem Valid.view_eq (h : Valid fd p) (c : κ) : p.view fd c = alone (p.events c) (p.index c) := by
  simp only [view, hasChannel, h.mapped c, h.kernel c]
  cases p.index c <;> simp [alone, mapEntry, kernelEntry]

theorem updateChannel_alone (e₀ e : Events) (idx : Index) :
    ({ alone e₀ idx with events := e } : Channel).updateChannel =
      alone e (updatedIndex e idx) := by
  cases idx with
  | kNew | kDeleted => rfl
  | kAdded =>
    by_cases he : e = kNoneEvent
    · simp [alone, Channel.updateChannel, Channel.isNoneEvent, Channel.updateEpoll, epollCtl,
        updatedIndex, he]
    · simp [alone, Channel.updateChannel, Channel.isNoneEvent, Channel.updateEpoll, epollCtl,
        updatedIndex, he]

theorem call_alone (e : Events) (idx : Index) (op : ChannelCall) :
    (alone e idx).call op = alone (op.events e) (indexAfter (op.events e) idx op) := by
  have hevents : (alone e idx).events = e := by cases idx <;> rfl
  cases op with
  | remove => cases idx <;> rfl
  | enableReading => exact (updateChannel_alone e _ idx).trans (by rw [hevents]; rfl)
  | disableReading => exact (updateChannel_alone e _ idx).trans (by rw [hevents]; rfl)
  | enableWriting => exact (updateChannel_alone e _ idx).trans (by rw [hevents]; rfl)
  | disableWriting => exact (updateChannel_alone e _ idx).trans (by rw [hevents]; rfl)
  | disableAll => exact updateChannel_alone e _ idx

/-- **The poller is its channels, one by one**: a call changes the view of its own channel
as it changes that channel alone, and no other view. -/
theorem Valid.view_call (hfd : Function.Injective fd) (h : Valid fd p) {c : κ}
    {op : ChannelCall} (hr : ¬ p.Refused c op) (d : κ) :
    (p.call fd c op).view fd d = if d = c then (p.view fd c).call op else p.view fd d := by
  rcases h.call_eq c op with ⟨hrefused, -⟩ | ⟨-, heq⟩
  · exact absurd hrefused hr
  · rw [heq, (h.registered hfd c _ _).view_eq d, h.view_eq c, h.view_eq d, call_alone]
    by_cases hd : d = c
    · subst hd
      simp only [EpollPoller.registered, Function.update_self, if_true]
    · simp only [EpollPoller.registered, Function.update_of_ne hd, if_neg hd]

/-! ## Channels without events of interest -/

/-- Only channels with events of interest are in the kernel's set. -/
def OnlyWithEvents (fd : κ → Fd) (p : EpollPoller κ) : Prop :=
  ∀ c, (∃ entry, p.epoll (fd c) = some entry) → p.events c ≠ kNoneEvent

/-- A call that leaves its channel without events of interest is made on a channel that is
registered. -/
def EmptiesRegistered (p : EpollPoller κ) : PollerInput κ → Prop
  | .call c .disableReading => (p.events c).write = false → p.index c = .kAdded
  | .call c .disableWriting => (p.events c).read = false → p.index c = .kAdded
  | .call c .disableAll => p.index c = .kAdded
  | _ => True

instance decidableEmptiesRegistered (p : EpollPoller κ) :
    ∀ i, Decidable (p.EmptiesRegistered i)
  | .call c .disableReading =>
    inferInstanceAs (Decidable ((p.events c).write = false → p.index c = .kAdded))
  | .call c .disableWriting =>
    inferInstanceAs (Decidable ((p.events c).read = false → p.index c = .kAdded))
  | .call c .disableAll => inferInstanceAs (Decidable (p.index c = .kAdded))
  | .call _ .enableReading => isTrue trivial
  | .call _ .enableWriting => isTrue trivial
  | .call _ .remove => isTrue trivial
  | .active _ => isTrue trivial

omit [DecidableEq κ] in
theorem Valid.onlyWithEvents_iff (h : Valid fd p) :
    p.OnlyWithEvents fd ↔ ∀ c, p.index c = .kAdded → p.events c ≠ kNoneEvent := by
  refine forall_congr' fun c => ?_
  rw [h.kernel c]
  cases p.index c <;> simp [kernelEntry]

/-- After an update, an empty mask is registered exactly if the channel was not registered
before it: only the branch for `kAdded` looks at the mask. -/
theorem updatedIndex_eq_kAdded_iff (e : Events) (idx : Index) :
    (updatedIndex e idx = .kAdded → e ≠ kNoneEvent) ↔ (e = kNoneEvent → idx = .kAdded) := by
  cases idx with
  | kNew | kDeleted => simp [updatedIndex]
  | kAdded =>
    by_cases he : e = kNoneEvent
    · simp [updatedIndex, he]
    · simp [he]

omit [DecidableEq κ] in
theorem emptiesRegistered_iff (p : EpollPoller κ) (c : κ) (op : ChannelCall) :
    p.EmptiesRegistered (.call c op) ↔
      (indexAfter (op.events (p.events c)) (p.index c) op = .kAdded →
        op.events (p.events c) ≠ kNoneEvent) := by
  cases op with
  | remove => simp [EmptiesRegistered, indexAfter]
  | enableReading =>
    simp only [indexAfter, updatedIndex_eq_kAdded_iff]
    simp [EmptiesRegistered, ChannelCall.events, kNoneEvent]
  | enableWriting =>
    simp only [indexAfter, updatedIndex_eq_kAdded_iff]
    simp [EmptiesRegistered, ChannelCall.events, kNoneEvent]
  | disableReading =>
    simp only [indexAfter, updatedIndex_eq_kAdded_iff]
    simp [EmptiesRegistered, ChannelCall.events, kNoneEvent]
  | disableWriting =>
    simp only [indexAfter, updatedIndex_eq_kAdded_iff]
    simp [EmptiesRegistered, ChannelCall.events, kNoneEvent]
  | disableAll =>
    simp only [indexAfter, updatedIndex_eq_kAdded_iff]
    simp [EmptiesRegistered, ChannelCall.events]

/-- One step keeps the registrations free of empty masks exactly when it meets the
condition. -/
theorem step_onlyWithEvents_iff (hfd : Function.Injective fd) {p' : EpollPoller κ}
    {i : PollerInput κ} (h : Valid fd p) (hp : p.OnlyWithEvents fd)
    (hstep : p.step fd i = some p') : p'.OnlyWithEvents fd ↔ p.EmptiesRegistered i := by
  cases i with
  | active c =>
    obtain rfl := Option.some.inj hstep
    exact iff_of_true hp trivial
  | call c op =>
    obtain rfl := Option.some.inj hstep
    rcases h.call_eq c op with ⟨⟨rfl, -⟩, heq⟩ | ⟨-, heq⟩
    · rw [heq]
      exact iff_of_true hp trivial
    · rw [heq, (h.registered hfd c _ _).onlyWithEvents_iff, emptiesRegistered_iff]
      rw [h.onlyWithEvents_iff] at hp
      constructor
      · intro hall
        simpa only [registered, Function.update_self] using hall c
      · intro hc d
        by_cases hd : d = c
        · subst hd
          simpa only [registered, Function.update_self] using hc
        · simpa only [registered, Function.update_of_ne hd] using hp d

/-- A second call that leaves a channel without events undoes what the first did: the
index goes back and forth between `kAdded` and `kDeleted`. -/
theorem Valid.call_call_ne (hfd : Function.Injective fd) (h : Valid fd p) {c : κ}
    {op : ChannelCall} (hop : op ≠ .remove) (hnone : op.events (p.events c) = kNoneEvent) :
    (p.call fd c op).call fd c op ≠ p.call fd c op := by
  have hcall : ∀ {q : EpollPoller κ}, Valid fd q → q.call fd c op =
      q.registered fd c (op.events (q.events c)) (updatedIndex (op.events (q.events c))
        (q.index c)) := by
    intro q hq
    rcases hq.call_eq c op with ⟨⟨hremove, -⟩, -⟩ | ⟨-, heq⟩
    · exact absurd hremove hop
    · rw [heq]
      cases op with
      | remove => exact absurd rfl hop
      | _ => rfl
  have hvalid := h.registered hfd c kNoneEvent (updatedIndex kNoneEvent (p.index c))
  have htwice : op.events kNoneEvent = kNoneEvent := by
    cases op with
    | enableReading | enableWriting => simp [ChannelCall.events, kNoneEvent] at hnone
    | disableReading | disableWriting | disableAll => rfl
    | remove => exact absurd rfl hop
  intro heq
  rw [hcall h, hnone, hcall hvalid] at heq
  have hindex := congrFun (congrArg EpollPoller.index heq) c
  simp only [EpollPoller.registered, Function.update_self, htwice] at hindex
  cases hidx : p.index c <;> rw [hidx] at hindex <;> simp [updatedIndex] at hindex

/-- **When a channel without events stays out of the kernel's set.**  In every state of a
run only channels with events of interest are registered, exactly if every call that
leaves a channel without events is made on a channel with index `kAdded`.  The branch of
`updateChannel` for the other two does not look at the mask, so such a call registers
the channel with an empty one, and making the call twice never leaves what making it
once does. -/
theorem onlyWithEvents_iff_emptiesRegistered (hfd : Function.Injective fd)
    {is : List (PollerInput κ)} (hrun : Machine.run (step fd) initial is = some p) :
    (Machine.Throughout (step fd) (OnlyWithEvents fd) initial is ↔
        Machine.Along (step fd) EmptiesRegistered initial is) ∧
      ∀ c op, op ≠ .remove → op.events (p.events c) = kNoneEvent →
        (p.call fd c op).call fd c op ≠ p.call fd c op := by
  refine ⟨?_, fun c op hop hnone => (run_valid hfd hrun).call_call_ne hfd hop hnone⟩
  refine Machine.throughout_iff_along (I := Valid fd) (Q := OnlyWithEvents fd)
    (fun _ _ _ _ hp hi => step_valid hfd hp hi)
    (fun _ _ _ _ h hp hG hi => (step_onlyWithEvents_iff hfd h hp hi).mpr hG)
    (fun _ _ _ _ h hp hi => (step_onlyWithEvents_iff hfd h hp hi).mp)
    (fun _ h => h) hrun (initial_valid fd) ?_
  rintro c ⟨entry, hentry⟩
  cases hentry

/-- `disableAll` on a channel that has been emptied already registers it again, with an
empty mask. -/
theorem emptied_twice :
    ∃ p, Machine.run (step id) initial
        [.call 3 .enableReading, .call 3 .disableAll, .call 3 .disableAll] = some p ∧
      p.epoll 3 = some (3, kNoneEvent) ∧ p.events 3 = kNoneEvent :=
  ⟨_, rfl, rfl, rfl⟩

theorem onlyWithEvents_iff_emptiesRegistered_once :
    Machine.Throughout (step id) (OnlyWithEvents id) initial
      [.call 3 .enableReading, .call 3 .enableWriting, .call 3 .disableReading,
        .call 3 .disableAll, .call 3 .remove] :=
  (onlyWithEvents_iff_emptiesRegistered Function.injective_id rfl).1.mpr (by decide)

end EpollPoller
end ReMuduo
