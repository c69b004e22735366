import Mathlib.Data.Prod.Lex
import Mathlib.Tactic.Common

/-! # Timestamps, timers and the timerfd

`Timestamp` (`include/Timestamp.h`), `Timer` and `TimerId` (`include/Timer.h`), the
free functions of `TimerQueue.cpp` that arm the timerfd, and what the kernel is
assumed to do with it.

A `Timestamp` is its `int64_t` number of microseconds, as an integer: signed overflow has no
defined behaviour in the source, so the model speaks of the runs in which the sums
are representable.  A `double` number of seconds enters the code in two ways only,
by its sign and by its truncation to whole microseconds, and that pair is what a
`Seconds` is. -/
namespace ReMuduo

namespace Timestamp

/-- `valid()`, of the microseconds since the epoch that a `Timestamp` holds. -/
def valid (microSecondsSinceEpoch : Int) : Bool := decide (0 < microSecondsSinceEpoch)

/-- `Timestamp::invalid()`, also what the default constructor builds. -/
def invalid : Int := 0

/-- `kMicroSecondsPerSecond`. -/
def kMicroSecondsPerSecond : Int := 1000 * 1000

end Timestamp

/-- A `double` number of seconds: whether it is positive (`seconds > 0.0`), and
`static_cast<int64_t>(seconds * kMicroSecondsPerSecond)`. -/
structure Seconds where
  positive : Bool
  micros : Int
  micros_nonneg : positive = true → 0 ≤ micros

namespace Seconds

/-- `0.0`, the interval of a one-shot timer. -/
def zero : Seconds := ⟨false, 0, nofun⟩

/-- A positive number of seconds, of this many whole microseconds. -/
def ofMicros (n : Nat) : Seconds := ⟨true, n, fun _ => Int.natCast_nonneg n⟩

end Seconds

/-- `addTime(timestamp, seconds)`. -/
def addTime (timestamp : Int) (seconds : Seconds) : Int :=
  timestamp + seconds.micros

/-- A pointer value. -/
abbrev Addr := Nat

/-- The null pointer. -/
def nullptr : Addr := 0

/-- `UINTPTR_MAX`, the pointer value of the sentry in `getExpired`. -/
def uintptrMax : Addr := UInt64.size - 1

/-- A `Timer` object.  Its callback is arbitrary code and is not part of the data:
what it does is chosen by the run. -/
structure Timer where
  expiration : Int
  interval : Seconds
  sequence : Nat

namespace Timer

/-- `repeat()`, set by the constructor to `interval > 0.0`. -/
def repeats (t : Timer) : Bool := t.interval.positive

/-- `restart(now)`. -/
def restart (t : Timer) (now : Int) : Timer :=
  if t.repeats then
    if Timestamp.valid now then { t with expiration := addTime now t.interval }
    else { t with expiration := Timestamp.invalid }
  else { t with expiration := Timestamp.invalid }

@[simp] theorem restart_sequence (t : Timer) (now : Int) :
    (t.restart now).sequence = t.sequence := by
  unfold restart; split <;> [split; skip] <;> rfl

@[simp] theorem restart_interval (t : Timer) (now : Int) :
    (t.restart now).interval = t.interval := by
  unfold restart; split <;> [split; skip] <;> rfl

theorem restart_expiration {t : Timer} (h : t.repeats = true) {now : Int} (hnow : 0 < now) :
    (t.restart now).expiration = now + t.interval.micros := by
  simp [restart, h, Timestamp.valid, hnow, addTime]

end Timer

/-- `TimerId`: the address of a timer and its sequence number. -/
@[ext]
structure TimerId where
  timer : Addr
  sequence : Nat
deriving DecidableEq

/-- `isValid()`. -/
def TimerId.isValid (id : TimerId) : Bool := decide (id.timer ≠ nullptr)

/-! ## The timerfd -/

/-- The two clocks the timer code reads: `gettimeofday`, and `CLOCK_MONOTONIC`, on
which the timerfd was created; both in microseconds. -/
structure Clock where
  wall : Int
  mono : Int

/-- A `struct timespec`. -/
structure Timespec where
  tv_sec : Int
  tv_nsec : Int
deriving DecidableEq

namespace Timespec

/-- What `timerfd_settime` accepts. -/
def Normalised (ts : Timespec) : Prop := 0 ≤ ts.tv_sec ∧ 0 ≤ ts.tv_nsec ∧ ts.tv_nsec < 1000000000

instance (ts : Timespec) : Decidable ts.Normalised := by
  unfold Normalised; infer_instance

/-- The interval in microseconds. -/
def micros (ts : Timespec) : Int := ts.tv_sec * 1000000 + ts.tv_nsec / 1000

end Timespec

/-- `howMuchTimeFromNow(when)`, at an instant at which `gettimeofday` answers `now`. -/
def howMuchTimeFromNow (now when : Int) : Timespec :=
  let microseconds := if when - now < 100 then 100 else when - now
  { tv_sec := microseconds.tdiv Timestamp.kMicroSecondsPerSecond
    tv_nsec := microseconds.tmod Timestamp.kMicroSecondsPerSecond * 1000 }

/-- The interval asked for is the distance to `when`, or 100 microseconds if that
is less; the timespec that encodes it is normalised and not zero. -/
theorem howMuchTimeFromNow_spec (now when : Int) :
    (howMuchTimeFromNow now when).micros = max (when - now) 100 ∧
      (howMuchTimeFromNow now when).Normalised ∧ howMuchTimeFromNow now when ≠ ⟨0, 0⟩ := by
  obtain ⟨us, hus⟩ : ∃ us : Int, us = if when - now < 100 then 100 else when - now := ⟨_, rfl⟩
  have hpos : 100 ≤ us := by rw [hus]; split <;> omega
  have hmax : us = max (when - now) 100 := by rw [hus]; split <;> omega
  have hdiv : us.tdiv 1000000 = us / 1000000 := Int.tdiv_eq_ediv_of_nonneg (by omega)
  have hmod : us.tmod 1000000 = us % 1000000 := Int.tmod_eq_emod_of_nonneg (by omega)
  have hts : howMuchTimeFromNow now when = ⟨us / 1000000, us % 1000000 * 1000⟩ := by
    rw [← hdiv, ← hmod, hus]; rfl
  rw [hts]
  refine ⟨?_, ?_, ?_⟩
  · simp only [Timespec.micros]; omega
  · simp only [Timespec.Normalised]; omega
  · intro h
    have h1 := congrArg Timespec.tv_sec h
    have h2 := congrArg Timespec.tv_nsec h
    simp only at h1 h2
    omega

/-- The kernel's one-shot timer behind `timerfd_`: its deadline on the monotonic
clock while it is armed, and an unread expiration after it has expired. -/
inductive Timerfd
  | disarmed
  | armed (deadline : Int)
  | expired (deadline : Int)
deriving DecidableEq

namespace Timerfd

/-- `timerfd_settime(fd, 0, {it_value := ts}, _)`: the deadline is replaced and
unread expirations are cleared; a zero value disarms the timer, and a value that is
not normalised is refused. -/
def settime (fd : Timerfd) (mono : Int) (ts : Timespec) : Timerfd :=
  if ¬ ts.Normalised then fd
  else if ts = ⟨0, 0⟩ then disarmed
  else armed (mono + ts.micros)

/-- `read(fd)`: an unread expiration is consumed and leaves the one-shot timer
disarmed; otherwise the read fails with `EAGAIN` and changes nothing. -/
def read : Timerfd → Timerfd
  | expired _ => disarmed
  | fd => fd

/-- The monotonic clock reaches `mono`. -/
def advance (mono : Int) : Timerfd → Timerfd
  | armed d => if d ≤ mono then expired d else armed d
  | fd => fd

/-- The timer is armed for `d`, or expired at `d` with nobody having read it. -/
def Pending (fd : Timerfd) (d : Int) : Prop := fd = armed d ∨ fd = expired d

theorem Pending.advance {fd : Timerfd} {d : Int} (h : fd.Pending d) (mono : Int) :
    (fd.advance mono).Pending d := by
  rcases h with rfl | rfl
  · by_cases hd : d ≤ mono
    · exact Or.inr (by simp [Timerfd.advance, hd])
    · exact Or.inl (by simp [Timerfd.advance, hd])
  · exact Or.inr rfl

/-- Armed for the time from now to `when`, the timer is due at `when`, or 100
microseconds from now if that is later. -/
theorem settime_howMuchTimeFromNow (fd : Timerfd) (clock : Clock) (when : Int) :
    fd.settime clock.mono (howMuchTimeFromNow clock.wall when) =
      armed (clock.mono + max (when - clock.wall) 100) := by
  obtain ⟨hmicros, hnorm, hne⟩ := howMuchTimeFromNow_spec clock.wall when
  simp [settime, hnorm, hne, hmicros]

end Timerfd
end ReMuduo
