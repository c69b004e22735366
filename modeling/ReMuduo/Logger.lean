import ReMuduo.Printf
import ReMuduo.Timer

/-! # Log lines

`Logger::log` (`src/base/Logger_new.cpp`), `Timestamp::to_string` (`src/base/Timestamp.cpp`)
and the messages of the `LOG_*` macros (`include/Logger.h`).

`log` formats the time, the level and the message into an array of 1024 characters and hands
the array to `output_`, with the length that `snprintf` returns.  Bytes are what a message is
made of; the rest of a line is ASCII text. -/
namespace ReMuduo

/-- What is printed of a `struct tm`. -/
structure Tm where
  tm_year : Int
  tm_mon : Int
  tm_mday : Int
  tm_hour : Int
  tm_min : Int
  tm_sec : Int

/-- `Timestamp::to_string()` of a number of microseconds since the epoch. -/
def Timestamp.to_string (localtime : Int → Tm) (microSecondsSinceEpoch : Int) : List UInt8 :=
  let tm_time := localtime (microSecondsSinceEpoch.tdiv kMicroSecondsPerSecond)
  let microseconds := microSecondsSinceEpoch.tmod kMicroSecondsPerSecond
  Printf.stored 128 (Printf.bytes
    (Printf.blankPadded 4 (tm_time.tm_year + 1900) ++ Printf.zeroPadded 2 (tm_time.tm_mon + 1) ++
      Printf.zeroPadded 2 tm_time.tm_mday ++ ' ' :: Printf.zeroPadded 2 tm_time.tm_hour ++
      ':' :: Printf.zeroPadded 2 tm_time.tm_min ++ ':' :: Printf.zeroPadded 2 tm_time.tm_sec ++
      '.' :: Printf.zeroPadded 6 microseconds))

/-- A broken-down time from the years that have four digits. -/
structure Tm.Ordinary (tm : Tm) : Prop where
  year : 0 ≤ tm.tm_year + 1900 ∧ tm.tm_year + 1900 < 10000
  mon : 0 ≤ tm.tm_mon + 1 ∧ tm.tm_mon + 1 < 100
  mday : 0 ≤ tm.tm_mday ∧ tm.tm_mday < 100
  hour : 0 ≤ tm.tm_hour ∧ tm.tm_hour < 100
  min : 0 ≤ tm.tm_min ∧ tm.tm_min < 100
  sec : 0 ≤ tm.tm_sec ∧ tm.tm_sec < 100

theorem Timestamp.length_to_string {localtime : Int → Tm} {now : Int} (hnow : 0 ≤ now)
    (htm : (localtime (now.tdiv kMicroSecondsPerSecond)).Ordinary) :
    (Timestamp.to_string localtime now).length = 24 := by
  have htwo : ∀ v : Int, 0 ≤ v ∧ v < 100 → (Printf.zeroPadded 2 v).length = 2 := by
    intro v hv
    have hlt : v.toNat < 100 := by omega
    exact Printf.length_zeroPadded hv.1
      ((Nat.length_toDigits_le_iff (by decide) (by decide)).mpr hlt)
  have hyear : (Printf.blankPadded 4
      ((localtime (now.tdiv kMicroSecondsPerSecond)).tm_year + 1900)).length = 4 := by
    have hlt := htm.year
    exact Printf.length_blankPadded hlt.1
      ((Nat.length_toDigits_le_iff (by decide) (by decide)).mpr
        (show _ < 10000 by omega))
  have hmicro : (Printf.zeroPadded 6 (now.tmod kMicroSecondsPerSecond)).length = 6 := by
    have hlt : now.tmod kMicroSecondsPerSecond < 1000000 := Int.tmod_lt_of_pos now (by decide)
    exact Printf.length_zeroPadded (Int.tmod_nonneg _ hnow)
      ((Nat.length_toDigits_le_iff (by decide) (by decide)).mpr
        (show _ < 1000000 by omega))
  rw [to_string]
  simp only [Printf.length_stored, Printf.bytes, List.length_map, List.length_append,
    List.length_cons, hyear, hmicro, htwo _ htm.mon, htwo _ htm.mday, htwo _ htm.hour,
    htwo _ htm.min, htwo _ htm.sec]
  decide

/-- `LogLevel`. -/
inductive LogLevel where
  | INFO | ERROR | FATAL | DEBUG
deriving DecidableEq

/-- The value that `setLogLevel` stores. -/
def LogLevel.toInt : LogLevel → Int
  | INFO => 0
  | ERROR => 1
  | FATAL => 2
  | DEBUG => 3

namespace Logger

/-- The `switch` over `LogLevel_`. -/
def levelStr (level : Int) : List Char :=
  if level = LogLevel.INFO.toInt then "INFO".toList
  else if level = LogLevel.ERROR.toInt then "ERROR".toList
  else if level = LogLevel.FATAL.toInt then "FATAL".toList
  else if level = LogLevel.DEBUG.toInt then "DEBUG".toList
  else "UNKNOWN".toList

variable (localtime : Int → Tm) (level now : Int) (msg : List UInt8)

/-- What stands before the message of a line: `[%s] %s: `. -/
def header : List UInt8 :=
  Printf.bytes ['['] ++ Timestamp.to_string localtime now ++ Printf.bytes [']', ' '] ++
    Printf.bytes (levelStr level) ++ Printf.bytes [':', ' ']

/-- The whole line: `[%s] %s: %s\n`. -/
def line : List UInt8 := header localtime level now ++ Printf.cString msg ++ Printf.bytes ['\n']

/-- What `log(msg)` hands to `output_`, with `level` in `LogLevel_` and at the time `now`. -/
def log : List (Option UInt8) × Int :=
  Printf.snprintf (List.replicate 1024 none) (line localtime level now msg)

/-- The message that a macro hands to `log`, where `text` is what its format and arguments give. -/
def macroMessage (text : List UInt8) : List UInt8 := Printf.cString (Printf.stored 1024 text)

theorem length_line :
    (line localtime level now msg).length = (Timestamp.to_string localtime now).length +
      (levelStr level).length + (Printf.cString msg).length + 6 := by
  simp only [line, header, Printf.bytes, List.length_append, List.length_map, List.length_cons,
    List.length_nil]
  omega

theorem length_buf : (List.replicate 1024 (none : Option UInt8)).length = 1024 :=
  List.length_replicate

theorem length_buf_le : (List.replicate 1024 (none : Option UInt8)).length ≤ Printf.intMax := by
  rw [length_buf]
  decide

/-- The length that is handed on is one of characters that were stored exactly when the whole
line fits. -/
theorem log_le_stored_iff :
    0 ≤ (log localtime level now msg).2 ∧ (log localtime level now msg).2 ≤
        (Printf.stored 1024 (line localtime level now msg)).length ↔
      (line localtime level now msg).length ≤ 1023 := by
  have hiff := Printf.snprintf_le_stored_iff (line localtime level now msg) length_buf_le
  rw [length_buf] at hiff
  exact hiff

/-- A line that fits is what `output_` reads. -/
theorem read_log (hfits : (line localtime level now msg).length ≤ 1023) :
    Memory.read? (log localtime level now msg).1 0 (log localtime level now msg).2.toNat =
      some ((line localtime level now msg).map some) := by
  have hbuf : List.replicate 1024 (none : Option UInt8) ≠ [] :=
    List.ne_nil_of_length_pos (by rw [length_buf]; decide)
  refine Printf.read_snprintf_all hbuf length_buf_le ?_
  rw [length_buf]
  exact hfits

/-- **What `log` hands on.**  The length is at most the number of characters stored exactly
when time, level and message, with the six characters around them, have 1023 characters at
most; the bytes that are read are then the line. -/
theorem log_passes_stored_iff :
    (0 ≤ (log localtime level now msg).2 ∧ (log localtime level now msg).2 ≤
        (Printf.stored 1024 (line localtime level now msg)).length ↔
      (Timestamp.to_string localtime now).length + (levelStr level).length +
        (Printf.cString msg).length + 6 ≤ 1023) ∧
    ((Timestamp.to_string localtime now).length + (levelStr level).length +
        (Printf.cString msg).length + 6 ≤ 1023 →
      Memory.read? (log localtime level now msg).1 0 (log localtime level now msg).2.toNat =
        some ((line localtime level now msg).map some)) := by
  rw [← length_line]
  exact ⟨log_le_stored_iff localtime level now msg, read_log localtime level now msg⟩

/-- The first second of the epoch. -/
def epoch : Int → Tm := fun _ => ⟨70, 0, 1, 0, 0, 0⟩

/-- The longest message that a macro can produce: `output_` is told to read 1057 characters of
an array of 1024, of which 1023 are the line. -/
theorem longest_message_overread :
    (log epoch LogLevel.INFO.toInt 0 (macroMessage (List.replicate 1023 120))).2 = 1057 ∧
      (Printf.stored 1024 (line epoch LogLevel.INFO.toInt 0
        (macroMessage (List.replicate 1023 120)))).length = 1023 ∧
      Memory.read? (log epoch LogLevel.INFO.toInt 0
        (macroMessage (List.replicate 1023 120))).1 0 1057 = none := by
  decide +kernel

/-! ## What can be read off a line -/

/-- At ordinary times a message may have 989 characters, and one less if the name of its level
has five letters. -/
theorem log_limit {localtime : Int → Tm} {now : Int} (hnow : 0 ≤ now)
    (htm : (localtime (now.tdiv Timestamp.kMicroSecondsPerSecond)).Ordinary) (level : LogLevel)
    (msg : List UInt8) :
    0 ≤ (log localtime level.toInt now msg).2 ∧ (log localtime level.toInt now msg).2 ≤
        (Printf.stored 1024 (line localtime level.toInt now msg)).length ↔
      (Printf.cString msg).length ≤ if level = .INFO then 989 else 988 := by
  have hlevel : (levelStr level.toInt).length = if level = .INFO then 4 else 5 := by
    cases level <;> decide
  rw [log_le_stored_iff, length_line, Timestamp.length_to_string hnow htm, hlevel]
  split <;> omega

/-- The array that is handed on starts with a bracket. -/
theorem log_head : (log localtime level now msg).1[0]? = some (some '['.toUInt8) :=
  Printf.snprintf_head _ _ _ (by rw [length_buf]; decide)

theorem length_header_le : (header localtime level now).length ≤ 1023 := by
  have htime := Printf.length_stored 128
  have hlevel : (levelStr level).length ≤ 7 := by
    unfold levelStr
    repeat' split
    all_goals decide
  simp only [header, Printf.bytes, Timestamp.to_string, List.length_append, List.length_map,
    List.length_cons, List.length_nil, htime]
  omega

/-- The header is in what is stored of a line, however long the message is. -/
theorem header_prefix_stored :
    header localtime level now <+: Printf.stored 1024 (line localtime level now msg) := by
  refine List.prefix_take_iff.mpr ⟨?_, length_header_le localtime level now⟩
  rw [line, List.append_assoc]
  exact List.prefix_append _ _

/-- The first letter of its name tells a level. -/
theorem levelStr_head_inj {level : Int} {own : LogLevel}
    (h : (Printf.bytes (levelStr level)).head? = (Printf.bytes (levelStr own.toInt)).head?) :
    level = own.toInt := by
  rw [levelStr] at h
  repeat' split at h
  all_goals cases own
  all_goals first | assumption | exact absurd h (by decide)

theorem head_levelStr_append (rest : List UInt8) :
    (Printf.bytes (levelStr level) ++ rest).head? = (Printf.bytes (levelStr level)).head? := by
  unfold levelStr
  repeat' split
  all_goals rfl

/-- A line starts with the header of one level only. -/
theorem header_prefix_iff (own : LogLevel) :
    header localtime own.toInt now <+: Printf.stored 1024 (line localtime level now msg) ↔
      level = own.toInt := by
  constructor
  · intro h
    have hline := (List.prefix_take_iff.mp h).1
    rw [line, header, header] at hline
    simp only [List.append_assoc, List.prefix_append_right_inj] at hline
    obtain ⟨rest, hrest⟩ := hline
    have hhead := congrArg List.head? hrest
    rw [List.append_assoc, head_levelStr_append, head_levelStr_append] at hhead
    exact levelStr_head_inj hhead.symm
  · rintro rfl
    exact header_prefix_stored localtime _ now msg

end Logger
end ReMuduo
