import ReMuduo.AppendFile
import ReMuduo.Chunking
import ReMuduo.Machine
import ReMuduo.Printf

/-! # Rolling log files

`LogFile` (`src/base/LogFile.cpp`).  An `append` goes to the current file.  A new file is
begun when the current one has grown beyond `rollSize_`, or when one `append` in
`checkEveryN_` reads the clock and finds another day than the one the file was begun in.

What the environment answers (the clock, `fopen`, `fwrite_unlocked`) is part of the input of
each `append`, and so are the answers that a `rollFile` would get.  The files that are no
longer current are kept in the order of their creation; all data that was ever appended is
kept too, for the statements.  A file starts with what an earlier file of the same name
holds, since it is opened for appending: the names decide whether anything is mixed up.

The name of a file is made of the seconds of one reading of the clock and the microseconds of
a later one. -/
namespace ReMuduo

/-- The arguments of the constructor, which stay as they are. -/
structure LogFileConfig where
  basename : List Char
  rollSize : Nat
  flushInterval : Int
  checkEveryN : Int
deriving DecidableEq

/-- What one `rollFile` finds: the seconds that `time` answers, the `tv_usec` that
`gettimeofday` answers, and how opening the file goes. -/
structure RollFile where
  now : Int
  usec : Nat
  fopen : Fopen
deriving DecidableEq

/-- A file that is no longer current, and what the `rollFile` found that began it. -/
structure RolledFile where
  file : AppendFile
  begun : RollFile
deriving DecidableEq

/-- A `LogFile`.  `begun` is what the `rollFile` found that began the current file. -/
structure LogFile where
  config : LogFileConfig
  count : Int
  startOfPeriod : Int
  lastRoll : Int
  file : AppendFile
  begun : RollFile
  rolled : List RolledFile
  appended : List (List UInt8)
deriving DecidableEq

/-- One `append`: its data, how `fwrite_unlocked` answers, the seconds that `time` would answer
to the check, and what a `rollFile` would find. -/
structure LogFileAppend where
  logline : List UInt8
  fwrite : Fwrite
  now : Int
  roll : RollFile

namespace LogFile

def kRollPerSeconds : Int := 86400

/-- `now / kRollPerSeconds * kRollPerSeconds`, where the division rounds towards zero. -/
def periodOf (now : Int) : Int := now.tdiv kRollPerSeconds * kRollPerSeconds

variable (strftime : Int → List Char)

/-- `getLogFileName(basename, &now)`, where `strftime` writes a number of seconds as
`.%Y%m%d-%H%M%S`. -/
def getLogFileName (basename : List Char) (r : RollFile) : List Char :=
  basename ++ strftime r.now ++ '.' :: Printf.zeroPadded 6 r.usec ++ ".log".toList

/-- What the file called `filename` holds, if one of `files` has this name. -/
def contentsOf (files : List AppendFile) (filename : List Char) : List UInt8 :=
  ((files.reverse.find? (·.filename = filename)).map AppendFile.contents).getD []

/-- All files, in the order of their creation. -/
def files (s : LogFile) : List AppendFile := s.rolled.map RolledFile.file ++ [s.file]

/-- `rollFile()`. -/
def rollFile (s : LogFile) (r : RollFile) : LogFile :=
  let filename := getLogFileName strftime s.config.basename r
  { s with
    lastRoll := r.now
    startOfPeriod := periodOf r.now
    rolled := s.rolled ++ [⟨s.file, s.begun⟩]
    file := AppendFile.create r.fopen filename (contentsOf s.files filename)
    begun := r }

/-- The constructor, whose `rollFile` creates the first file. -/
def create (config : LogFileConfig) (r : RollFile) : LogFile :=
  { config := config
    count := 0
    startOfPeriod := periodOf r.now
    lastRoll := r.now
    file := AppendFile.create r.fopen (getLogFileName strftime config.basename r) []
    begun := r
    rolled := []
    appended := [] }

/-- The file has taken the data. -/
def wrote (s : LogFile) (logline : List UInt8) (file : AppendFile) : LogFile :=
  { s with file := file, appended := s.appended ++ [logline] }

/-- `append_unlocked(logline, len)`.  Flushing the file changes nothing that is modelled. -/
def append (s : LogFile) (a : LogFileAppend) : Option LogFile :=
  (s.file.append a.fwrite a.logline).map fun file =>
    if s.config.rollSize < file.writtenBytes then
      (s.wrote a.logline file).rollFile strftime a.roll
    else if s.config.checkEveryN ≤ s.count + 1 then
      if periodOf a.now ≠ s.startOfPeriod then
        { s.wrote a.logline file with count := 0 }.rollFile strftime a.roll
      else if s.config.flushInterval < a.now - s.lastRoll then
        { s.wrote a.logline file with count := 0, lastRoll := a.now }
      else { s.wrote a.logline file with count := 0 }
    else { s.wrote a.logline file with count := s.count + 1 }

variable {strftime} {s s' : LogFile} {a : LogFileAppend} {r : RollFile} {as : List LogFileAppend}

/-- What one `append` can do once the file has taken its data. -/
theorem append_cases (h : append strftime s a = some s') :
    ∃ file, s.file.append a.fwrite a.logline = some file ∧
      ((s.config.rollSize < file.writtenBytes ∧
          s' = (s.wrote a.logline file).rollFile strftime a.roll) ∨
        (s.config.checkEveryN ≤ s.count + 1 ∧ periodOf a.now ≠ s.startOfPeriod ∧
          s' = { s.wrote a.logline file with count := 0 }.rollFile strftime a.roll) ∨
        (file.writtenBytes ≤ s.config.rollSize ∧ ∃ count lastRoll,
          s' = { s.wrote a.logline file with count := count, lastRoll := lastRoll })) := by
  obtain ⟨file, hfile, rfl⟩ := Option.map_eq_some_iff.mp h
  refine ⟨file, hfile, ?_⟩
  by_cases hsize : s.config.rollSize < file.writtenBytes
  · exact .inl ⟨hsize, if_pos hsize⟩
  · have hsmall := Nat.le_of_not_lt hsize
    rw [if_neg hsize]
    by_cases hcheck : s.config.checkEveryN ≤ s.count + 1
    · rw [if_pos hcheck]
      by_cases hperiod : periodOf a.now ≠ s.startOfPeriod
      · exact .inr (.inl ⟨hcheck, hperiod, if_pos hperiod⟩)
      · rw [if_neg hperiod]
        split
        · exact .inr (.inr ⟨hsmall, 0, a.now, rfl⟩)
        · exact .inr (.inr ⟨hsmall, 0, s.lastRoll, rfl⟩)
    · exact .inr (.inr ⟨hsmall, s.count + 1, s.lastRoll, if_neg hcheck⟩)

/-- An `append` returns, whatever the environment answers. -/
theorem append_returns (strftime : Int → List Char) (s : LogFile) (a : LogFileAppend) :
    ∃ s', append strftime s a = some s' ∧ s'.config = s.config ∧
      s'.appended = s.appended ++ [a.logline] := by
  obtain ⟨contents, writtenBytes, hfile⟩ := AppendFile.append_keeps a.fwrite s.file a.logline
  have h : ∃ s', append strftime s a = some s' := ⟨_, by rw [append, hfile, Option.map_some]⟩
  obtain ⟨s', h⟩ := h
  refine ⟨s', h, ?_⟩
  obtain ⟨file, -, ⟨-, rfl⟩ | ⟨-, -, rfl⟩ | ⟨-, count, lastRoll, rfl⟩⟩ := append_cases h
  · exact ⟨rfl, rfl⟩
  · exact ⟨rfl, rfl⟩
  · exact ⟨rfl, rfl⟩

theorem run_returns (strftime : Int → List Char) (s : LogFile) (as : List LogFileAppend) :
    ∃ s', Machine.run (append strftime) s as = some s' ∧ s'.config = s.config ∧
      s'.appended = s.appended ++ as.map LogFileAppend.logline := by
  induction as generalizing s with
  | nil => exact ⟨s, rfl, rfl, by simp⟩
  | cons a as ih =>
    obtain ⟨t, ht, htconfig, htappended⟩ := append_returns strftime s a
    obtain ⟨s', hrun, hconfig, happended⟩ := ih t
    refine ⟨s', Machine.run_cons_eq_some.mpr ⟨t, ht, hrun⟩, hconfig.trans htconfig, ?_⟩
    rw [happended, htappended, List.map_cons, List.append_assoc, List.singleton_append]

/-! ## The names of the files -/

/-- The names of all files, in the order of their creation. -/
def names (s : LogFile) : List (List Char) := s.files.map AppendFile.filename

theorem names_rollFile (s : LogFile) (r : RollFile) :
    (s.rollFile strftime r).names =
      s.names ++ [getLogFileName strftime s.config.basename r] := by
  simp [names, files, rollFile, AppendFile.create]

/-- An `append` creates one file at most. -/
theorem append_names (h : append strftime s a = some s') :
    s'.names = s.names ∨
      s'.names = s.names ++ [getLogFileName strftime s.config.basename a.roll] := by
  obtain ⟨contents, writtenBytes, hkeeps⟩ := AppendFile.append_keeps a.fwrite s.file a.logline
  obtain ⟨file, hfile, hcases⟩ := append_cases h
  have hwrote : (s.wrote a.logline file).names = s.names := by
    rw [hkeeps] at hfile
    rw [← Option.some.inj hfile]
    simp [names, files, wrote]
  rcases hcases with ⟨-, rfl⟩ | ⟨-, -, rfl⟩ | ⟨-, count, lastRoll, rfl⟩
  · right
    rw [names_rollFile, hwrote]
    rfl
  · right
    rw [names_rollFile]
    exact congrArg (· ++ [_]) hwrote
  · left
    exact hwrote

theorem append_nodup (h : append strftime s a = some s') (hnodup : s'.names.Nodup) :
    s.names.Nodup := by
  rcases append_names h with hnames | hnames
  · rwa [← hnames]
  · rw [hnames] at hnodup
    exact (List.nodup_append.mp hnodup).1

theorem run_nodup (hrun : Machine.run (append strftime) s as = some s')
    (hnodup : s'.names.Nodup) : s.names.Nodup := by
  by_contra hno
  exact Machine.run_invariant (P := fun s => ¬ s.names.Nodup)
    (fun _ _ _ hs h hnodup => hs (append_nodup h hnodup)) hrun hno hnodup

theorem run_names_sublist (hrun : Machine.run (append strftime) s as = some s') :
    s'.names.Sublist
      (s.names ++ (as.map LogFileAppend.roll).map (getLogFileName strftime s.config.basename)) := by
  induction as generalizing s with
  | nil =>
    rw [← Option.some.inj hrun]
    simp
  | cons a as ih =>
    obtain ⟨t, ht, hrest⟩ := Machine.run_cons_eq_some.mp hrun
    obtain ⟨t', ht', hconfig, -⟩ := append_returns strftime s a
    rw [ht] at ht'
    rw [← Option.some.inj ht'] at hconfig
    have hsub := ih hrest
    rw [hconfig] at hsub
    rcases append_names ht with hnames | hnames
    · rw [hnames] at hsub
      exact hsub.trans (List.Sublist.append_left (List.sublist_cons_self _ _) _)
    · rw [hnames, List.append_assoc] at hsub
      exact hsub

/-- A name that is new gives an empty file. -/
theorem contentsOf_eq_nil {filename : List Char} (h : filename ∉ s.names) :
    contentsOf s.files filename = [] := by
  have hnone : s.files.reverse.find? (·.filename = filename) = none := by
    refine List.find?_eq_none.mpr fun f hf hname => h ?_
    rw [← of_decide_eq_true hname]
    exact List.mem_map_of_mem (List.mem_reverse.mp hf)
  rw [contentsOf, hnone]
  rfl

/-- A new file has no contents yet, unless its name was taken. -/
theorem contents_rollFile (hname : (s.rollFile strftime r).names.Nodup) :
    (s.rollFile strftime r).file.contents = [] := by
  refine contentsOf_eq_nil fun hmem => ?_
  rw [names_rollFile] at hname
  exact (List.nodup_append.mp hname).2.2 _ hmem _ List.mem_cons_self rfl

/-! ## Nothing is lost or split -/

/-- The current file is open and counts what it holds, and the files hold what was appended, in
order and with each `append` whole in one of them. -/
structure Intact (s : LogFile) : Prop where
  opened : s.file.fp = true
  counted : s.file.writtenBytes = s.file.contents.length
  chunked : Chunked s.appended (s.files.map AppendFile.contents)

theorem Intact.wrote (h : s.Intact) (logline : List UInt8) :
    (s.wrote logline { s.file with
      contents := s.file.contents ++ logline
      writtenBytes := s.file.writtenBytes + logline.length }).Intact where
  opened := h.opened
  counted := by
    show s.file.writtenBytes + logline.length = (s.file.contents ++ logline).length
    rw [h.counted, List.length_append]
  chunked := by
    have hchunked := h.chunked
    rw [files, List.map_append] at hchunked ⊢
    exact hchunked.extend_last

/-- The current file is not beyond the roll size between two calls of `append`. -/
def Ready (s : LogFile) : Prop := s.Intact ∧ s.file.contents.length ≤ s.config.rollSize

/-- Leaving the current file for an empty one. -/
theorem Intact.rollFile (h : s.Intact) (hopens : r.fopen.opens = true)
    (hname : (s.rollFile strftime r).names.Nodup) : (s.rollFile strftime r).Ready := by
  have hempty := contents_rollFile hname
  refine ⟨⟨hopens, by rw [hempty]; rfl, ?_⟩, by rw [hempty]; exact Nat.zero_le _⟩
  have hfiles : (s.rollFile strftime r).files.map AppendFile.contents =
      s.files.map AppendFile.contents ++ [[]] := by
    rw [files, List.map_append, List.map_singleton, hempty]
    simp [files, LogFile.rollFile]
  have hchunked := h.chunked.append Chunked.nil_chunk
  rw [List.append_nil] at hchunked
  rw [hfiles]
  exact hchunked

/-- What the statements below assume of the environment: writes complete and files open. -/
def Works (a : LogFileAppend) : Prop :=
  a.fwrite.KeepsAccepting a.logline.length ∧ a.roll.fopen.opens = true

theorem ready_create (config : LogFileConfig) (hopens : r.fopen.opens = true) :
    (create strftime config r).Ready :=
  ⟨⟨hopens, rfl, Chunked.nil_chunk⟩, Nat.zero_le _⟩

theorem append_ready (ha : Works a) (h : append strftime s a = some s')
    (hnodup : s'.names.Nodup) (hs : s.Ready) : s'.Ready := by
  obtain ⟨file, hfile, hcases⟩ := append_cases h
  have hwrote := hs.1.wrote a.logline
  rw [← AppendFile.append_completes ha.1 hs.1.opened hfile] at hwrote
  -- the counters do not matter for what the files hold
  have hcounters : ∀ count lastRoll, { s.wrote a.logline file with
      count := count, lastRoll := lastRoll : LogFile }.Intact := fun _ _ =>
    ⟨hwrote.opened, hwrote.counted, hwrote.chunked⟩
  rcases hcases with ⟨-, rfl⟩ | ⟨-, -, rfl⟩ | ⟨hsize, count, lastRoll, rfl⟩
  · exact hwrote.rollFile ha.2 hnodup
  · exact (hcounters 0 s.lastRoll).rollFile ha.2 hnodup
  · exact ⟨hcounters count lastRoll, hwrote.counted ▸ hsize⟩

theorem run_ready {config : LogFileConfig} (hr : r.fopen.opens = true) (has : ∀ a ∈ as, Works a)
    (hrun : Machine.run (append strftime) (create strftime config r) as = some s)
    (hnodup : s.names.Nodup) : s.Ready := by
  refine Machine.run_invariant_mem (P := fun s => s.names.Nodup → s.Ready) ?_ hrun
    (fun _ => ready_create config hr) hnodup
  intro a ha s s' hs h hnodup
  exact append_ready (has a ha) h hnodup (hs (append_nodup h hnodup))

/-! ## Why a file is left -/

/-- The current file was begun by one of `rolls`, which gave it its name, and its period is
that of the clock reading there. -/
structure Begun (strftime : Int → List Char) (rolls : List RollFile) (s : LogFile) : Prop where
  mem : s.begun ∈ rolls
  filename : s.file.filename = getLogFileName strftime s.config.basename s.begun
  startOfPeriod : s.startOfPeriod = periodOf s.begun.now

theorem append_begun {rolls : List RollFile} (h : append strftime s a = some s')
    (hs : s.Begun strftime rolls) : s'.Begun strftime (rolls ++ [a.roll]) := by
  obtain ⟨contents, writtenBytes, hkeeps⟩ := AppendFile.append_keeps a.fwrite s.file a.logline
  obtain ⟨file, hfile, ⟨-, rfl⟩ | ⟨-, -, rfl⟩ | ⟨-, count, lastRoll, rfl⟩⟩ := append_cases h
  · exact ⟨List.mem_append_right _ List.mem_cons_self, rfl, rfl⟩
  · exact ⟨List.mem_append_right _ List.mem_cons_self, rfl, rfl⟩
  · obtain rfl := Option.some.inj (hfile.symm.trans hkeeps)
    exact ⟨List.mem_append_left _ hs.mem, hs.filename, hs.startOfPeriod⟩

theorem run_begun {rolls : List RollFile} (hs : s.Begun strftime rolls)
    (hrun : Machine.run (append strftime) s as = some s') :
    s'.Begun strftime (rolls ++ as.map LogFileAppend.roll) := by
  induction as generalizing s rolls with
  | nil =>
    obtain rfl := Option.some.inj hrun
    rw [List.map_nil, List.append_nil]
    exact hs
  | cons a as ih =>
    obtain ⟨t, ht, hrest⟩ := Machine.run_cons_eq_some.mp hrun
    have ht' := ih (append_begun ht hs) hrest
    rw [List.append_assoc] at ht'
    exact ht'

/-- An `append` leaves one file at most, the current one: because it has become larger than the
roll size, or because this is an `append` that checks the clock, and `time` answers with another
day than it did when the file was begun.  Division by 86400 seconds counts the days. -/
theorem append_leaves {rolls : List RollFile} {f : RolledFile} (ha : Works a) (hs : s.Ready)
    (hbegun : s.Begun strftime rolls) (h : append strftime s a = some s')
    (hf : f ∈ s'.rolled) (hnew : f ∉ s.rolled) :
    s'.rolled = s.rolled ++ [f] ∧ f.begun = s.begun ∧ f.file.filename = s.file.filename ∧
      (s.config.rollSize < f.file.contents.length ∨
        s.config.checkEveryN ≤ s.count + 1 ∧ a.now.tdiv 86400 ≠ f.begun.now.tdiv 86400) := by
  obtain ⟨file, hfile, hcases⟩ := append_cases h
  have hcompletes := AppendFile.append_completes ha.1 hs.1.opened hfile
  have hname : file.filename = s.file.filename := by rw [hcompletes]
  have hlast : ∀ {u : LogFile}, f ∈ u.rolled ++ [⟨u.file, u.begun⟩] → u.rolled = s.rolled →
      f = ⟨u.file, u.begun⟩ := by
    intro u hmem hrolled
    rcases List.mem_append.mp hmem with hmem | hmem
    · exact absurd (hrolled ▸ hmem) hnew
    · exact List.mem_singleton.mp hmem
  rcases hcases with ⟨hsize, rfl⟩ | ⟨hcheck, hperiod, rfl⟩ | ⟨-, count, lastRoll, rfl⟩
  · obtain rfl := hlast (u := s.wrote a.logline file) hf rfl
    refine ⟨rfl, rfl, hname, .inl ?_⟩
    have hcounted : file.writtenBytes = file.contents.length := by
      rw [hcompletes, List.length_append, hs.1.counted]
    exact hcounted ▸ hsize
  · obtain rfl := hlast (u := { s.wrote a.logline file with count := 0 }) hf rfl
    refine ⟨rfl, rfl, hname, .inr ⟨hcheck, fun hday => hperiod ?_⟩⟩
    rw [hbegun.startOfPeriod]
    exact congrArg (· * kRollPerSeconds) hday
  · exact absurd hf hnew

/-- **Rolling loses and splits nothing.**  If files open, writes complete and the names are
distinct, then after any calls of `append` the files hold what was appended, in order, each
`append` whole in one of them; and the current file is not beyond the roll size.  For each of
the others the calls can be cut at the `append` that left it: some earlier `rollFile` had begun
it, and it was beyond the roll size, or this `append` checked the clock and found another day
than that `rollFile`. -/
theorem rolling_keeps_all (strftime : Int → List Char) (config : LogFileConfig) (r : RollFile)
    (as : List LogFileAppend) (hr : r.fopen.opens = true) (has : ∀ a ∈ as, Works a)
    (hnodup : ∀ s, Machine.run (append strftime) (create strftime config r) as = some s →
      s.names.Nodup) :
    ∃ s, Machine.run (append strftime) (create strftime config r) as = some s ∧
      (s.files.map AppendFile.contents).flatten = (as.map LogFileAppend.logline).flatten ∧
      Chunked (as.map LogFileAppend.logline) (s.files.map AppendFile.contents) ∧
      s.file.contents.length ≤ config.rollSize ∧
      ∀ f ∈ s.rolled, ∃ before a after t t', as = before ++ a :: after ∧
        Machine.run (append strftime) (create strftime config r) before = some t ∧
        append strftime t a = some t' ∧ t'.rolled = t.rolled ++ [f] ∧
        f.begun ∈ r :: before.map LogFileAppend.roll ∧
        f.file.filename = getLogFileName strftime config.basename f.begun ∧
        (config.rollSize < f.file.contents.length ∨
          config.checkEveryN ≤ t.count + 1 ∧ a.now.tdiv 86400 ≠ f.begun.now.tdiv 86400) := by
  obtain ⟨s, hrun, hconfig, happended⟩ := run_returns strftime (create strftime config r) as
  obtain ⟨hintact, hsmall⟩ := run_ready hr has hrun (hnodup s hrun)
  have hchunked := hintact.chunked
  rw [happended] at hchunked
  rw [hconfig] at hsmall
  refine ⟨s, hrun, hchunked.flatten_eq, hchunked, hsmall, fun f hf => ?_⟩
  obtain ⟨before, a, after, t, t', rfl, hbefore, hnew, hleft, hgained, hafter⟩ :=
    Machine.exists_gaining_step (P := fun s => f ∈ s.rolled) hrun List.not_mem_nil hf
  have hnodupt : t.names.Nodup := append_nodup hleft (run_nodup hafter (hnodup s hrun))
  have ht : t.Ready := run_ready hr (fun b hb => has b (List.mem_append_left _ hb)) hbefore hnodupt
  have hcreated : (create strftime config r).Begun strftime [r] := ⟨List.mem_cons_self, rfl, rfl⟩
  have hbegun : t.Begun strftime (r :: before.map LogFileAppend.roll) :=
    run_begun hcreated hbefore
  have hconfigt : t.config = config := by
    obtain ⟨u, hu, hconfigu, -⟩ := run_returns strftime (create strftime config r) before
    obtain rfl := Option.some.inj (hu.symm.trans hbefore)
    exact hconfigu
  obtain ⟨hrolled, hbegunf, hnamef, hleaves⟩ :=
    append_leaves (has a (by simp)) ht hbegun hleft hgained hnew
  rw [hconfigt] at hleaves
  refine ⟨before, a, after, t, t', rfl, hbefore, hleft, hrolled, hbegunf ▸ hbegun.mem, ?_, hleaves⟩
  rw [hnamef, hbegunf, hbegun.filename, hconfigt]

/-- A file that opens, begun with the first second of a day. -/
def rollAt (day : Int) (usec : Nat) : RollFile := ⟨day * 86400, usec, ⟨true, false, false⟩⟩

/-- A line that is written as a whole, at that time. -/
def lineAt (day : Int) (usec : Nat) (logline : List UInt8) : LogFileAppend :=
  ⟨logline, AppendFile.acceptsAll, day * 86400, rollAt day usec⟩

theorem works_lineAt (day : Int) (usec : Nat) (logline : List UInt8) :
    Works (lineAt day usec logline) :=
  ⟨AppendFile.keepsAccepting_acceptsAll _, rfl⟩

/-- Two lines of one day, and a line of the next. -/
def threeLines : List LogFileAppend := [lineAt 0 1 [10, 11], lineAt 0 2 [20, 21], lineAt 1 3 [30]]

/-- The first two lines make a file of more than three bytes.  The third line is alone in its
file, which is left because of the day. -/
theorem rolling_keeps_three_lines :
    ∃ s, Machine.run (append fun _ => []) (create (fun _ => []) ⟨[], 3, 3, 1⟩ (rollAt 0 0))
        threeLines = some s ∧
      s.files.map AppendFile.contents = [[10, 11, 20, 21], [30], []] ∧
      ∃ f ∈ s.rolled, f.file.contents = [30] ∧ ∃ before a after,
        threeLines = before ++ a :: after ∧ f.begun ∈ rollAt 0 0 :: before.map LogFileAppend.roll ∧
          a.now.tdiv 86400 ≠ f.begun.now.tdiv 86400 := by
  obtain ⟨s, hrun, -, -, -, hleft⟩ := rolling_keeps_all (fun _ => []) ⟨[], 3, 3, 1⟩ (rollAt 0 0)
    threeLines rfl (by simp [threeLines, works_lineAt])
    (fun s hrun => (run_names_sublist hrun).nodup (by decide))
  have hview : (Machine.run (append fun _ => []) (create (fun _ => []) ⟨[], 3, 3, 1⟩ (rollAt 0 0))
      threeLines).map (fun s => (s.files.map AppendFile.contents,
        s.rolled.map (·.file.contents))) =
      some ([[10, 11, 20, 21], [30], []], [[10, 11, 20, 21], [30]]) := by decide +kernel
  rw [hrun, Option.map_some, Option.some.injEq, Prod.mk.injEq] at hview
  have hmem : [30] ∈ s.rolled.map (·.file.contents) := hview.2 ▸ by simp
  obtain ⟨f, hf, hcontents⟩ := List.mem_map.mp hmem
  obtain ⟨before, a, after, t, t', hlines, -, -, -, hbegun, -, hreason⟩ := hleft f hf
  refine ⟨s, hrun, hview.1, f, hf, hcontents, before, a, after, hlines, hbegun, ?_⟩
  rw [hcontents] at hreason
  exact (hreason.resolve_left (by decide)).2

/-! ## Distinct names -/

/-- The readings of one clock, in microseconds, that a `rollFile` takes: `time` is called at
one and answers the seconds of a tick that is not later, then `gettimeofday` is called. -/
structure Readings where
  tick : Nat
  time : Nat
  timeofday : Nat
  tick_le : tick ≤ time
  time_le : time ≤ timeofday

namespace Readings

/-- What `time` and `gettimeofday` answer. -/
def rollFile (c : Readings) (fopen : Fopen) : RollFile :=
  ⟨(c.tick / 1000000 : Nat), c.timeofday % 1000000, fopen⟩

/-- The two clock calls answer the same second. -/
def SameSecond (c : Readings) : Prop := c.timeofday / 1000000 = c.tick / 1000000

end Readings

/-- `strftime` tells seconds apart. -/
def TellsSeconds (strftime : Int → List Char) : Prop :=
  ∀ n m : Nat, strftime n = strftime m → n = m

/-- The seconds of the one clock call and the microseconds of the other can be read off the
name. -/
theorem getLogFileName_inj (hstrftime : TellsSeconds strftime) {basename : List Char}
    {a b : Readings} {oa ob : Fopen}
    (h : getLogFileName strftime basename (a.rollFile oa) =
      getLogFileName strftime basename (b.rollFile ob)) :
    a.tick / 1000000 = b.tick / 1000000 ∧ a.timeofday % 1000000 = b.timeofday % 1000000 := by
  have hwidth : ∀ c : Readings,
      (Printf.zeroPadded 6 (c.timeofday % 1000000 : Nat)).length = 6 := by
    intro c
    have hlt : c.timeofday % 1000000 < 1000000 := Nat.mod_lt _ (by decide)
    exact Printf.length_zeroPadded_natCast
      ((Nat.length_toDigits_le_iff (by decide) (by decide)).mpr hlt)
  have hfront := List.append_cancel_right h
  obtain ⟨hseconds, husec⟩ := List.append_inj' hfront (by
    rw [List.length_cons, List.length_cons]
    exact congrArg Nat.succ ((hwidth a).trans (hwidth b).symm))
  exact ⟨hstrftime _ _ (List.append_cancel_left hseconds),
    Printf.zeroPadded_natCast_inj (List.cons.inj husec).2⟩

/-- A later pair of clock calls within one second gives another name. -/
theorem getLogFileName_ne (hstrftime : TellsSeconds strftime) {basename : List Char}
    {a b : Readings} {oa ob : Fopen} (hlater : a.timeofday < b.time) (hsame : b.SameSecond) :
    getLogFileName strftime basename (a.rollFile oa) ≠
      getLogFileName strftime basename (b.rollFile ob) := by
  intro h
  obtain ⟨hseconds, husec⟩ := getLogFileName_inj hstrftime h
  have hticks : a.tick ≤ a.timeofday := Nat.le_trans a.tick_le a.time_le
  have hcalls := b.time_le
  rw [Readings.SameSecond] at hsame
  -- the first `gettimeofday` lies between the first tick and the second `gettimeofday`
  omega

/-- **When two calls of `rollFile` choose the same name.**  They do if `time` answers the same
second to both and the answers of `gettimeofday` are whole seconds apart.  This cannot happen
if the later of them reads `time` and `gettimeofday` within one second of the clock. -/
theorem later_name_eq_iff {strftime : Int → List Char} (hstrftime : TellsSeconds strftime)
    (basename : List Char) (oa ob : Fopen) {a b : Readings} (hlater : a.timeofday < b.time) :
    (getLogFileName strftime basename (a.rollFile oa) =
        getLogFileName strftime basename (b.rollFile ob) ↔
      a.tick / 1000000 = b.tick / 1000000 ∧ a.timeofday % 1000000 = b.timeofday % 1000000) ∧
    (b.SameSecond → getLogFileName strftime basename (a.rollFile oa) ≠
      getLogFileName strftime basename (b.rollFile ob)) := by
  refine ⟨⟨getLogFileName_inj hstrftime, ?_⟩, getLogFileName_ne hstrftime hlater⟩
  rintro ⟨hseconds, husec⟩
  simp only [getLogFileName, Readings.rollFile, hseconds, husec]

/-- Seconds as strokes. -/
def strokes (n : Int) : List Char := List.replicate n.toNat '|'

theorem tellsSeconds_strokes : TellsSeconds strokes := by
  intro n m h
  have hlength := congrArg List.length h
  simpa [strokes] using hlength

/-- Both clock calls at 0.1 s. -/
def tenth : Readings := ⟨100000, 100000, 100000, Nat.le_refl _, Nat.le_refl _⟩

/-- Both clock calls at 1.1 s. -/
def tenthLater : Readings := ⟨1100000, 1100000, 1100000, Nat.le_refl _, Nat.le_refl _⟩

theorem tenths_name_ne :
    getLogFileName strokes [] (tenth.rollFile ⟨true, false, false⟩) ≠
      getLogFileName strokes [] (tenthLater.rollFile ⟨true, false, false⟩) :=
  (later_name_eq_iff tellsSeconds_strokes [] _ _ (by decide)).2 rfl

/-- `time` is called at 0.999999 s, and `gettimeofday` at 1.1 s. -/
def acrossSecond : Readings := ⟨999999, 999999, 1100000, Nat.le_refl _, by decide⟩

/-- A second boundary between the two clock calls: the name says 0.1 s, which an earlier file
has already. -/
theorem second_boundary_same_name :
    TellsSeconds strokes ∧ tenth.timeofday < acrossSecond.tick ∧
      getLogFileName strokes [] (tenth.rollFile ⟨true, false, false⟩) =
        getLogFileName strokes [] (acrossSecond.rollFile ⟨true, false, false⟩) :=
  ⟨tellsSeconds_strokes, by decide, rfl⟩

/-- If every `rollFile` of a run reads the clock later than those before it and within one
second, the files get distinct names. -/
theorem run_names_nodup (hstrftime : TellsSeconds strftime) {config : LogFileConfig}
    {cs : List (Readings × Fopen)}
    (hrolls : r :: as.map LogFileAppend.roll = cs.map fun c => c.1.rollFile c.2)
    (hlater : cs.Pairwise fun a b => a.1.timeofday < b.1.time) (hsame : ∀ c ∈ cs, c.1.SameSecond)
    (hrun : Machine.run (append strftime) (create strftime config r) as = some s) :
    s.names.Nodup := by
  have hsub : s.names.Sublist
      ((r :: as.map LogFileAppend.roll).map (getLogFileName strftime config.basename)) :=
    run_names_sublist hrun
  refine hsub.nodup ?_
  rw [hrolls, List.map_map, List.Nodup, List.pairwise_map]
  refine hlater.imp_of_mem ?_
  intro a b _ hb hab
  exact getLogFileName_ne hstrftime hab (hsame b hb)

end LogFile
end ReMuduo
