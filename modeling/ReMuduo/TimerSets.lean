import ReMuduo.TimerQueue

/-! # The two sets of the timer queue stay in bijection

`insert`, `cancelInLoop` and `getExpired` update `timers_` and `activeTimers_` one after
the other, and `restart` changes the key under which a timer is filed.  The invariant
is `Bijective`: an entry `(when, t)` is filed exactly when `(t, t->sequence())` is active
and `when` is what `t` holds as its expiration.  Under it each operation is a plain
update, with none of its error branches taken (`insert_eq`, `cancelInLoop_eq`,
`getExpired_eq`, `resetOne_eq`).

`sched` forgets the representation: it is the partial function from timer ids to the
timers scheduled under them.  The operations update it point by point
(`sched_insert`, `sched_cancelInLoop`, `sched_getExpired`, `sched_resetOne`), and this
is all the later modules use. -/
namespace ReMuduo
namespace TimerQueue

/-- No timer at address `a` is scheduled. -/
def Inactive (q : TimerQueue) (a : Addr) : Prop := ∀ n, (⟨a, n⟩ : TimerId) ∉ q.activeTimers

/-- `timers_` and `activeTimers_` file the same live timers. -/
structure Bijective (q : TimerQueue) : Prop where
  entry_iff : ∀ when a, (⟨when, a⟩ : Entry) ∈ q.timers ↔
    ∃ t, q.heap a = some t ∧ (⟨a, t.sequence⟩ : TimerId) ∈ q.activeTimers ∧ when = t.expiration
  active_live : ∀ id ∈ q.activeTimers, ∃ t, q.heap id.timer = some t ∧ t.sequence = id.sequence
  size_eq : q.timers.size = q.activeTimers.size

theorem initial_bijective : initial.Bijective where
  entry_iff := by simp [initial]
  active_live := by simp [initial]
  size_eq := rfl

/-- The timer scheduled under an id. -/
def sched (q : TimerQueue) (id : TimerId) : Option Timer :=
  if id ∈ q.activeTimers then q.heap id.timer else none

variable {q : TimerQueue}

theorem sched_eq_some {id : TimerId} {t : Timer} :
    q.sched id = some t ↔ id ∈ q.activeTimers ∧ q.heap id.timer = some t := by
  unfold sched
  split <;> simp_all

theorem Bijective.sched_sequence (hq : q.Bijective) {id : TimerId} {t : Timer}
    (h : q.sched id = some t) : t.sequence = id.sequence := by
  obtain ⟨hid, ht⟩ := sched_eq_some.mp h
  obtain ⟨t', ht', hseq⟩ := hq.active_live id hid
  rw [ht] at ht'
  exact Option.some.inj ht' ▸ hseq

/-- What is filed is what is scheduled. -/
theorem Bijective.mem_timers (hq : q.Bijective) {e : Entry} :
    e ∈ q.timers ↔ ∃ n t, q.sched ⟨e.timer, n⟩ = some t ∧ e.when = t.expiration := by
  rw [show e = ⟨e.when, e.timer⟩ from rfl, hq.entry_iff]
  constructor
  · rintro ⟨t, ht, hid, hw⟩
    exact ⟨t.sequence, t, sched_eq_some.mpr ⟨hid, ht⟩, hw⟩
  · rintro ⟨n, t, h, hw⟩
    have hseq := hq.sched_sequence h
    obtain ⟨hid, ht⟩ := sched_eq_some.mp h
    exact ⟨t, ht, by rw [hseq]; exact hid, hw⟩

theorem Inactive.notMem_timers {a : Addr} (ha : q.Inactive a) (hq : q.Bijective) (w : Int) :
    (⟨w, a⟩ : Entry) ∉ q.timers := by
  intro h
  obtain ⟨t, -, hid, -⟩ := (hq.entry_iff w a).mp h
  exact ha _ hid

theorem Inactive.sched_eq_none {a : Addr} (ha : q.Inactive a) (n : Nat) :
    q.sched ⟨a, n⟩ = none := by
  unfold sched
  exact if_neg (ha n)

/-! ## Writing and freeing a timer that is not scheduled -/

@[simp] theorem setHeap_self (a : Addr) (x : Option Timer) : (q.setHeap a x).heap a = x := by
  simp [setHeap]

theorem setHeap_other {a b : Addr} (x : Option Timer) (h : b ≠ a) :
    (q.setHeap a x).heap b = q.heap b := by
  simp [setHeap, h]

theorem Bijective.setHeap (hq : q.Bijective) {a : Addr} (ha : q.Inactive a) (x : Option Timer) :
    (q.setHeap a x).Bijective where
  entry_iff := by
    intro when b
    show (⟨when, b⟩ : Entry) ∈ q.timers ↔ _
    by_cases hb : b = a
    · subst hb
      constructor
      · intro h
        exact absurd h (ha.notMem_timers hq when)
      · rintro ⟨t, -, hid, -⟩
        exact absurd hid (ha _)
    · rw [hq.entry_iff, setHeap_other x hb]
      exact Iff.rfl
  active_live := by
    intro id hid
    have hne : id.timer ≠ a := by
      intro he
      exact ha id.sequence (he ▸ hid)
    rw [setHeap_other x hne]
    exact hq.active_live id hid
  size_eq := hq.size_eq

theorem sched_setHeap {a : Addr} (ha : q.Inactive a) (x : Option Timer) (id : TimerId) :
    (q.setHeap a x).sched id = q.sched id := by
  show (if id ∈ q.activeTimers then _ else _) = if id ∈ q.activeTimers then _ else _
  split
  · rename_i hid
    exact setHeap_other x (fun he => ha id.sequence (he ▸ hid))
  · rfl

theorem newTimer_heap_self (q : TimerQueue) (a : Addr) (when : Int) (interval : Seconds) :
    (q.newTimer a when interval).heap a = some ⟨when, interval, q.numCreated⟩ := by
  simp [newTimer]

theorem newTimer_heap_other {a b : Addr} (when : Int) (interval : Seconds) (h : b ≠ a) :
    (q.newTimer a when interval).heap b = q.heap b :=
  setHeap_other _ h

theorem Bijective.newTimer (hq : q.Bijective) {a : Addr} (ha : q.Inactive a) (when : Int)
    (interval : Seconds) : (q.newTimer a when interval).Bijective := by
  obtain ⟨h1, h2, h3⟩ := hq.setHeap ha (some ⟨when, interval, q.numCreated⟩)
  exact ⟨h1, h2, h3⟩

theorem sched_newTimer {a : Addr} (ha : q.Inactive a) (when : Int) (interval : Seconds)
    (id : TimerId) : (q.newTimer a when interval).sched id = q.sched id :=
  sched_setHeap ha _ id

/-- A free address is inactive. -/
theorem Bijective.inactive_of_free (hq : q.Bijective) {a : Addr} (ha : q.heap a = none) :
    q.Inactive a := by
  intro n hid
  obtain ⟨t, ht, -⟩ := hq.active_live _ hid
  rw [ha] at ht
  cases ht

/-! ## `insert` -/

/-- The test of `insert` looks at the first entry only, which stands for all of them. -/
theorem isEarliest_iff {timers : OrderedSet Entry} {when : Int} :
    isEarliest timers when = true ↔ ∀ e ∈ timers, when < e.when := by
  unfold isEarliest
  split
  next hfirst =>
    refine iff_of_true rfl ?_
    intro e he
    exact absurd he (OrderedSet.first?_eq_none.mp hfirst e)
  next f hfirst =>
    rw [decide_eq_true_iff]
    constructor
    · intro hlt e he
      exact hlt.trans_le (Entry.when_le (OrderedSet.first?_le hfirst he))
    · intro hall
      exact hall f (OrderedSet.first?_mem hfirst)

/-- Files the timer `t` at address `a` in both sets. -/
def file (q : TimerQueue) (a : Addr) (t : Timer) : TimerQueue :=
  { q with
    timers := (q.timers.insert ⟨t.expiration, a⟩).1
    activeTimers := (q.activeTimers.insert ⟨a, t.sequence⟩).1 }

theorem Bijective.file (hq : q.Bijective) {a : Addr} {t : Timer} (ht : q.heap a = some t)
    (ha : q.Inactive a) : (q.file a t).Bijective where
  entry_iff := by
    intro when b
    show (⟨when, b⟩ : Entry) ∈ (q.timers.insert _).1 ↔
      ∃ u, q.heap b = some u ∧ (⟨b, u.sequence⟩ : TimerId) ∈ (q.activeTimers.insert _).1 ∧ _
    rw [OrderedSet.mem_insert, hq.entry_iff]
    constructor
    · rintro (h | ⟨u, hu, hid, hw⟩)
      · cases h
        exact ⟨t, ht, OrderedSet.mem_insert.mpr (Or.inl rfl), rfl⟩
      · exact ⟨u, hu, OrderedSet.mem_insert.mpr (Or.inr hid), hw⟩
    · rintro ⟨u, hu, hid, hw⟩
      rcases OrderedSet.mem_insert.mp hid with he | hid
      · have hb : b = a := congrArg TimerId.timer he
        subst hb
        rw [ht] at hu
        exact Or.inl (by rw [hw, Option.some.inj hu])
      · exact Or.inr ⟨u, hu, hid, hw⟩
  active_live := by
    intro id hid
    rcases OrderedSet.mem_insert.mp hid with rfl | hid
    · exact ⟨t, ht, rfl⟩
    · exact hq.active_live id hid
  size_eq := by
    show (q.timers.insert _).1.size = (q.activeTimers.insert _).1.size
    rw [OrderedSet.size_insert (ha.notMem_timers hq _), OrderedSet.size_insert (ha _), hq.size_eq]

/-- **`insert` takes none of its error branches**: on a live timer that is not
scheduled both insertions succeed and both assertions hold. -/
theorem insert_eq (hq : q.Bijective) {a : Addr} {t : Timer} (hnull : a ≠ nullptr)
    (ht : q.heap a = some t) (ha : q.Inactive a) :
    q.insert a = (q.file a t, isEarliest q.timers t.expiration) := by
  have hT : (q.timers.insert ⟨t.expiration, a⟩).2 = true := by
    rw [OrderedSet.insert_snd]; simp [ha.notMem_timers hq]
  have hA : (q.activeTimers.insert ⟨a, t.sequence⟩).2 = true := by
    rw [OrderedSet.insert_snd]; simp [ha t.sequence]
  have hsize := (hq.file ht ha).size_eq
  simp only [TimerQueue.file] at hsize
  simp [TimerQueue.insert, earliestChanged_eq, hnull, ht, hq.size_eq, hT, hA, hsize,
    TimerQueue.file]

theorem sched_file {a : Addr} {t : Timer} (ht : q.heap a = some t) (id : TimerId) :
    (q.file a t).sched id = if id = ⟨a, t.sequence⟩ then some t else q.sched id := by
  show (if id ∈ (q.activeTimers.insert _).1 then q.heap id.timer else none) = _
  by_cases hid : id = ⟨a, t.sequence⟩
  · rw [if_pos hid, if_pos (OrderedSet.mem_insert.mpr (Or.inl hid)), hid, ht]
  · rw [if_neg hid]
    unfold sched
    simp [hid]

/-! ## `cancelInLoop` -/

/-- Takes the timer `t`, scheduled under `id`, out of both sets and frees it. -/
def unfile (q : TimerQueue) (id : TimerId) (t : Timer) : TimerQueue :=
  (({ q with
    timers := (q.timers.erase ⟨t.expiration, id.timer⟩).1
    activeTimers := (q.activeTimers.erase id).1 } : TimerQueue).report .erasedIterator).setHeap
      id.timer none

/-- **`cancelInLoop` finds the timer in both sets or in neither.** -/
theorem cancelInLoop_eq (hq : q.Bijective) {id : TimerId} {t : Timer} (hnull : id.timer ≠ nullptr)
    (h : q.sched id = some t) : q.cancelInLoop id = q.unfile id t := by
  have hmem : (⟨t.expiration, id.timer⟩ : Entry) ∈ q.timers :=
    hq.mem_timers.mpr ⟨id.sequence, t, h, rfl⟩
  obtain ⟨hid, ht⟩ := sched_eq_some.mp h
  have hn : (q.timers.erase ⟨t.expiration, id.timer⟩).2 = 1 := by
    rw [OrderedSet.erase_snd, if_pos hmem]
  obtain ⟨it, hit, heq⟩ := q.cancelInLoop_of_mem hnull hid
  rw [heq, OrderedSet.iterSet_eraseIter hit]
  simp [ht, hn, unfile]

theorem Bijective.unfile (hq : q.Bijective) {id : TimerId} {t : Timer}
    (h : q.sched id = some t) : (q.unfile id t).Bijective := by
  have hseq := hq.sched_sequence h
  obtain ⟨hid, ht⟩ := sched_eq_some.mp h
  -- the timer leaves the sets first, so that its address is inactive when it is freed
  have hout : (({ q with
      timers := (q.timers.erase ⟨t.expiration, id.timer⟩).1
      activeTimers := (q.activeTimers.erase id).1 } : TimerQueue).report
        .erasedIterator).Bijective := by
    constructor
    · intro when a
      show (⟨when, a⟩ : Entry) ∈ (q.timers.erase _).1 ↔
        ∃ u, q.heap a = some u ∧ (⟨a, u.sequence⟩ : TimerId) ∈ (q.activeTimers.erase id).1 ∧ _
      rw [OrderedSet.mem_erase, hq.entry_iff]
      constructor
      · rintro ⟨hne, u, hu, hact, hw⟩
        refine ⟨u, hu, OrderedSet.mem_erase.mpr ⟨?_, hact⟩, hw⟩
        intro he
        apply hne
        have ha : a = id.timer := congrArg TimerId.timer he
        subst ha
        rw [ht] at hu
        rw [hw, Option.some.inj hu]
      · rintro ⟨u, hu, hact, hw⟩
        obtain ⟨hne, hact⟩ := OrderedSet.mem_erase.mp hact
        refine ⟨?_, u, hu, hact, hw⟩
        intro he
        apply hne
        have ha : a = id.timer := congrArg Entry.timer he
        subst ha
        rw [ht] at hu
        rw [← Option.some.inj hu, hseq]
    · intro i hi
      exact hq.active_live i (OrderedSet.mem_erase.mp hi).2
    · show (q.timers.erase _).1.size = (q.activeTimers.erase id).1.size
      have hmem : (⟨t.expiration, id.timer⟩ : Entry) ∈ q.timers :=
        hq.mem_timers.mpr ⟨id.sequence, t, h, rfl⟩
      have h1 := OrderedSet.size_erase hmem
      have h2 := OrderedSet.size_erase hid
      have h3 := hq.size_eq
      omega
  refine hout.setHeap ?_ none
  intro n hn
  obtain ⟨hne, hact⟩ := OrderedSet.mem_erase.mp hn
  obtain ⟨u, hu, hn'⟩ := hq.active_live _ hact
  rw [ht] at hu
  apply hne
  rw [← Option.some.inj hu, hseq] at hn'
  exact congrArg (TimerId.mk id.timer) hn'.symm

theorem sched_unfile (hq : q.Bijective) {id : TimerId} {t : Timer} (h : q.sched id = some t)
    (i : TimerId) : (q.unfile id t).sched i = if i = id then none else q.sched i := by
  have hseq := hq.sched_sequence h
  obtain ⟨-, ht⟩ := sched_eq_some.mp h
  show (if i ∈ (q.activeTimers.erase id).1 then (q.unfile id t).heap i.timer else none) = _
  by_cases hi : i = id
  · simp [hi]
  · rw [if_neg hi]
    unfold sched
    by_cases hact : i ∈ q.activeTimers
    · have hne : i.timer ≠ id.timer := by
        intro he
        obtain ⟨u, hu, hn⟩ := hq.active_live i hact
        rw [he, ht] at hu
        apply hi
        rw [← Option.some.inj hu, hseq] at hn
        cases i; cases id; simp_all
      rw [if_pos (OrderedSet.mem_erase.mpr ⟨hi, hact⟩), if_pos hact]
      exact setHeap_other none hne
    · rw [if_neg hact, if_neg]
      exact fun hmem => hact (OrderedSet.mem_erase.mp hmem).2

/-! ## The invariant of the queue -/

/-- The two sets are in bijection, live timers have the addresses `new` can return and
sequence numbers that have been handed out, and nothing has failed so far. -/
structure Valid (q : TimerQueue) : Prop extends Bijective q where
  live_addr : ∀ a t, q.heap a = some t → a ≠ nullptr ∧ a < uintptrMax
  live_seq : ∀ a t, q.heap a = some t → t.sequence < q.numCreated
  clean : ∀ r ∈ q.reports, r.failure = false

theorem initial_valid : initial.Valid where
  toBijective := initial_bijective
  live_addr := by simp [initial]
  live_seq := by simp [initial]
  clean := by simp [initial]

theorem Valid.report (hq : q.Valid) {r : Report} (hr : r.failure = false) :
    (q.report r).Valid where
  entry_iff := hq.entry_iff
  active_live := hq.active_live
  size_eq := hq.size_eq
  live_addr := hq.live_addr
  live_seq := hq.live_seq
  clean := by
    intro r' hr'
    rcases List.mem_append.mp hr' with h | h
    · exact hq.clean r' h
    · rw [List.mem_singleton.mp h]; exact hr

theorem Valid.check (hq : q.Valid) (c : Bool) {r : Report} (hr : r.failure = false) :
    (q.check c r).Valid := by
  cases c
  · exact hq.report hr
  · exact hq

@[simp] theorem heap_check (q : TimerQueue) (c : Bool) (r : Report) :
    (q.check c r).heap = q.heap := by
  cases c <;> rfl

@[simp] theorem sched_check (q : TimerQueue) (c : Bool) (r : Report) (id : TimerId) :
    (q.check c r).sched id = q.sched id := by
  cases c <;> rfl

theorem Valid.setHeap_some (hq : q.Valid) {a : Addr} (ha : q.Inactive a) {t u : Timer}
    (ht : q.heap a = some t) (hu : u.sequence = t.sequence) : (q.setHeap a (some u)).Valid where
  toBijective := hq.toBijective.setHeap ha _
  live_addr := by
    intro b v hv
    by_cases hb : b = a
    · exact hb ▸ hq.live_addr a t ht
    · rw [setHeap_other _ hb] at hv
      exact hq.live_addr b v hv
  live_seq := by
    intro b v hv
    by_cases hb : b = a
    · subst hb
      rw [setHeap_self] at hv
      rw [← Option.some.inj hv, hu]
      exact hq.live_seq b t ht
    · rw [setHeap_other _ hb] at hv
      exact hq.live_seq b v hv
  clean := hq.clean

theorem Valid.setHeap_none (hq : q.Valid) {a : Addr} (hb : (q.setHeap a none).Bijective) :
    (q.setHeap a none).Valid where
  toBijective := hb
  live_addr := by
    intro b v hv
    by_cases hba : b = a
    · subst hba; rw [setHeap_self] at hv; cases hv
    · rw [setHeap_other _ hba] at hv
      exact hq.live_addr b v hv
  live_seq := by
    intro b v hv
    by_cases hba : b = a
    · subst hba; rw [setHeap_self] at hv; cases hv
    · rw [setHeap_other _ hba] at hv
      exact hq.live_seq b v hv
  clean := hq.clean

theorem Valid.newTimer (hq : q.Valid) {a : Addr} (hfree : q.heap a = none)
    (hnull : a ≠ nullptr) (hmax : a < uintptrMax) (when : Int) (interval : Seconds) :
    (q.newTimer a when interval).Valid where
  toBijective := hq.toBijective.newTimer (hq.inactive_of_free hfree) when interval
  live_addr := by
    intro b v hv
    by_cases hb : b = a
    · exact hb ▸ ⟨hnull, hmax⟩
    · rw [newTimer_heap_other when interval hb] at hv
      exact hq.live_addr b v hv
  live_seq := by
    intro b v hv
    show v.sequence < q.numCreated + 1
    by_cases hb : b = a
    · subst hb
      rw [newTimer_heap_self] at hv
      rw [← Option.some.inj hv]
      exact Nat.lt_succ_self _
    · rw [newTimer_heap_other when interval hb] at hv
      exact Nat.lt_succ_of_lt (hq.live_seq b v hv)
  clean := hq.clean

theorem Valid.file (hq : q.Valid) {a : Addr} {t : Timer} (ht : q.heap a = some t)
    (ha : q.Inactive a) : (q.file a t).Valid :=
  ⟨hq.toBijective.file ht ha, hq.live_addr, hq.live_seq, hq.clean⟩

theorem Valid.unfile (hq : q.Valid) {id : TimerId} {t : Timer} (h : q.sched id = some t) :
    (q.unfile id t).Valid := by
  have hb := hq.toBijective.unfile h
  refine ⟨hb, ?_, ?_, (hq.report (r := .erasedIterator) rfl).clean⟩
  · intro b v hv
    by_cases hba : b = id.timer
    · subst hba; rw [TimerQueue.unfile, setHeap_self] at hv; cases hv
    · rw [TimerQueue.unfile, setHeap_other _ hba] at hv
      exact hq.live_addr b v hv
  · intro b v hv
    by_cases hba : b = id.timer
    · subst hba; rw [TimerQueue.unfile, setHeap_self] at hv; cases hv
    · rw [TimerQueue.unfile, setHeap_other _ hba] at hv
      exact hq.live_seq b v hv

/-! ## `getExpired` -/

/-- The loop of `getExpired` over entries that are filed, at distinct addresses: every
erasure finds its timer. -/
theorem foldl_eraseActive (l : List Entry) (q : TimerQueue)
    (hlive : ∀ id ∈ q.activeTimers, ∃ t, q.heap id.timer = some t ∧ t.sequence = id.sequence)
    (hl : ∀ e ∈ l, ∃ t, q.heap e.timer = some t ∧
      (⟨e.timer, t.sequence⟩ : TimerId) ∈ q.activeTimers)
    (hnodup : (l.map Entry.timer).Nodup) :
    ∃ A, l.foldl eraseActive q = { q with activeTimers := A } ∧
      (∀ id, id ∈ A ↔ id ∈ q.activeTimers ∧ ∀ e ∈ l, e.timer ≠ id.timer) ∧
      A.size + l.length = q.activeTimers.size := by
  induction l generalizing q with
  | nil => exact ⟨q.activeTimers, rfl, by simp, rfl⟩
  | cons e l ih =>
    obtain ⟨t, ht, hact⟩ := hl e List.mem_cons_self
    obtain ⟨hnot, hnodup⟩ := List.nodup_cons.mp hnodup
    have hn : (q.activeTimers.erase ⟨e.timer, t.sequence⟩).2 = 1 := by
      rw [OrderedSet.erase_snd, if_pos hact]
    have hone : q.eraseActive e =
        { q with activeTimers := (q.activeTimers.erase ⟨e.timer, t.sequence⟩).1 } := by
      simp [eraseActive, ht, hn]
    -- an id is erased here exactly when it lies at the address of `e`
    have hmem : ∀ id, id ∈ (q.activeTimers.erase ⟨e.timer, t.sequence⟩).1 ↔
        id ∈ q.activeTimers ∧ e.timer ≠ id.timer := by
      intro id
      rw [OrderedSet.mem_erase]
      constructor
      · rintro ⟨hne, hid⟩
        refine ⟨hid, fun he => hne ?_⟩
        obtain ⟨u, hu, hseq⟩ := hlive id hid
        rw [← he, ht] at hu
        rw [Option.some.inj hu, he, hseq]
      · rintro ⟨hid, hne⟩
        exact ⟨fun he => hne (congrArg TimerId.timer he).symm, hid⟩
    obtain ⟨A, hA, hAmem, hsize⟩ := ih
      { q with activeTimers := (q.activeTimers.erase ⟨e.timer, t.sequence⟩).1 }
      (fun id hid => hlive id ((hmem id).mp hid).1)
      (fun f hf => by
        obtain ⟨u, hu, hfact⟩ := hl f (List.mem_cons_of_mem _ hf)
        refine ⟨u, hu, (hmem _).mpr ⟨hfact, fun he => hnot ?_⟩⟩
        exact List.mem_map.mpr ⟨f, hf, he.symm⟩)
      hnodup
    refine ⟨A, by rw [List.foldl_cons, hone, hA], ?_, ?_⟩
    · intro id
      rw [hAmem]
      simp only [hmem, List.forall_mem_cons, and_assoc]
    · have := OrderedSet.size_erase hact
      simp only [List.length_cons] at hsize ⊢
      omega

/-- The sentry separates the entries at or before `now` from the later ones. -/
theorem Valid.lt_sentry (hq : q.Valid) {e : Entry} (he : e ∈ q.timers) (now : Int) :
    e < sentry now ↔ e.when ≤ now := by
  obtain ⟨t, ht, -, -⟩ := (hq.entry_iff e.when e.timer).mp he
  have hmax := (hq.live_addr _ t ht).2
  rw [Entry.lt_iff]
  constructor
  · rintro (h | ⟨h, -⟩)
    · exact le_of_lt h
    · exact le_of_eq h
  · intro h
    rcases lt_or_eq_of_le h with h | h
    · exact Or.inl h
    · exact Or.inr ⟨h, hmax⟩

theorem Valid.mem_expired (hq : q.Valid) {e : Entry} {now : Int} :
    e ∈ q.timers.below (sentry now) ↔ e ∈ q.timers ∧ e.when ≤ now := by
  rw [OrderedSet.mem_below]
  exact and_congr_right (fun he => hq.lt_sentry he now)

theorem Valid.mem_kept (hq : q.Valid) {e : Entry} {now : Int} :
    e ∈ q.timers.eraseBelow (sentry now) ↔ e ∈ q.timers ∧ now < e.when := by
  rw [OrderedSet.mem_eraseBelow]
  refine and_congr_right (fun he => ?_)
  rw [← not_lt, hq.lt_sentry he, not_le]

theorem Valid.boundaryHolds (hq : q.Valid) (now : Int) :
    TimerQueue.boundaryHolds q.timers now = true := by
  unfold TimerQueue.boundaryHolds
  split
  · rfl
  · rename_i e he
    exact decide_eq_true (hq.mem_kept.mp (OrderedSet.first?_mem he)).2

theorem Bijective.timer_nodup (hq : q.Bijective) {l : List Entry} (hl : l.Pairwise (· < ·))
    (hsub : ∀ e ∈ l, e ∈ q.timers) : (l.map Entry.timer).Nodup := by
  rw [List.Nodup, List.pairwise_map]
  refine hl.imp_of_mem ?_
  intro e f he hf hlt hsame
  -- one address is filed under one expiration
  obtain ⟨t, ht, -, hw⟩ := (hq.entry_iff e.when e.timer).mp (hsub e he)
  obtain ⟨u, hu, -, hw'⟩ := (hq.entry_iff f.when f.timer).mp (hsub f hf)
  rw [hsame, hu] at ht
  rw [Entry.lt_iff, hw, hw', Option.some.inj ht, hsame] at hlt
  rcases hlt with hlt | ⟨-, hlt⟩ <;> exact lt_irrefl _ hlt

/-- **`getExpired` at a valid time**: the entries at or before `now` leave both sets, in
order, and every other timer stays where it is. -/
theorem getExpired_eq (hq : q.Valid) {now : Int} (hnow : 0 < now) :
    ∃ A, q.getExpired now =
        ({ q with timers := q.timers.eraseBelow (sentry now), activeTimers := A },
          q.timers.below (sentry now)) ∧
      (∀ id, id ∈ A ↔ id ∈ q.activeTimers ∧
        ∀ e ∈ q.timers.below (sentry now), e.timer ≠ id.timer) ∧
      A.size + (q.timers.below (sentry now)).length = q.activeTimers.size := by
  have hsub : ∀ e ∈ q.timers.below (sentry now), e ∈ q.timers :=
    fun e he => (OrderedSet.mem_below.mp he).1
  obtain ⟨A, hA, hmem, hsize⟩ := foldl_eraseActive (q.timers.below (sentry now))
    { q with timers := q.timers.eraseBelow (sentry now) } hq.active_live
    (fun e he => by
      obtain ⟨t, ht, hact, -⟩ := (hq.entry_iff e.when e.timer).mp (hsub e he)
      exact ⟨t, ht, hact⟩)
    (hq.timer_nodup (q.timers.below_sorted _) hsub)
  refine ⟨A, ?_, hmem, hsize⟩
  rw [q.getExpired_of_valid (decide_eq_true hnow), OrderedSet.iterSet_eraseRange]
  simp only [OrderedSet.iterSet_toSet, hq.boundaryHolds, check_true, hA]

theorem getExpired_invalid {now : Int} (hnow : ¬ 0 < now) :
    q.getExpired now = (q.report .getExpiredInvalid, []) := by
  simp [getExpired, Timestamp.valid, hnow]

theorem Valid.getExpired (hq : q.Valid) (now : Int) : (q.getExpired now).1.Valid := by
  by_cases hnow : 0 < now
  · obtain ⟨A, heq, hmem, hsize⟩ := getExpired_eq hq hnow
    rw [heq]
    refine ⟨⟨?_, ?_, ?_⟩, hq.live_addr, hq.live_seq, hq.clean⟩
    · intro when a
      show (⟨when, a⟩ : Entry) ∈ q.timers.eraseBelow (sentry now) ↔
        ∃ t, q.heap a = some t ∧ (⟨a, t.sequence⟩ : TimerId) ∈ A ∧ when = t.expiration
      rw [hq.mem_kept, hq.entry_iff]
      constructor
      · rintro ⟨⟨t, ht, hact, hw⟩, hlate⟩
        refine ⟨t, ht, (hmem _).mpr ⟨hact, fun e he hsame => ?_⟩, hw⟩
        -- an expired entry at this address would carry the same, later, expiration
        obtain ⟨hin, hdue⟩ := hq.mem_expired.mp he
        obtain ⟨u, hu, -, hw'⟩ := (hq.entry_iff e.when e.timer).mp hin
        rw [hsame, ht] at hu
        rw [hw', ← Option.some.inj hu, ← hw] at hdue
        exact absurd hdue (not_le.mpr hlate)
      · rintro ⟨t, ht, hact, hw⟩
        obtain ⟨hact, hkept⟩ := (hmem _).mp hact
        refine ⟨⟨t, ht, hact, hw⟩, lt_of_not_ge (fun hdue => ?_)⟩
        have hin : (⟨when, a⟩ : Entry) ∈ q.timers := (hq.entry_iff when a).mpr ⟨t, ht, hact, hw⟩
        exact hkept _ (hq.mem_expired.mpr ⟨hin, hdue⟩) rfl
    · intro id hid
      exact hq.active_live id ((hmem id).mp hid).1
    · have h1 := q.timers.size_eraseBelow (sentry now)
      have h2 := hq.size_eq
      show (q.timers.eraseBelow (sentry now)).size = A.size
      omega
  · rw [getExpired_invalid hnow]
    exact hq.report rfl

/-- A timer that is due leaves the schedule, the others stay. -/
theorem sched_getExpired (hq : q.Valid) {now : Int} (hnow : 0 < now) (id : TimerId) :
    (q.getExpired now).1.sched id = (q.sched id).filter (fun t => decide (now < t.expiration)) := by
  obtain ⟨A, heq, hmem, -⟩ := getExpired_eq hq hnow
  rw [heq]
  show (if id ∈ A then q.heap id.timer else none) = _
  cases hs : q.sched id with
  | none =>
    rw [if_neg]
    · rfl
    · intro hA
      obtain ⟨hid, -⟩ := (hmem id).mp hA
      obtain ⟨t, ht, -⟩ := hq.active_live id hid
      rw [sched_eq_some.mpr ⟨hid, ht⟩] at hs
      cases hs
  | some t =>
    have hseq := hq.sched_sequence hs
    obtain ⟨hid, ht⟩ := sched_eq_some.mp hs
    have hin : (⟨t.expiration, id.timer⟩ : Entry) ∈ q.timers :=
      hq.mem_timers.mpr ⟨id.sequence, t, hs, rfl⟩
    by_cases hlate : now < t.expiration
    · rw [if_pos, ht]
      · simp only [Option.filter_some, hlate, decide_true, if_true]
      · refine (hmem id).mpr ⟨hid, fun e he hsame => ?_⟩
        obtain ⟨hine, hdue⟩ := hq.mem_expired.mp he
        obtain ⟨u, hu, -, hw⟩ := (hq.entry_iff e.when e.timer).mp hine
        rw [hsame, ht] at hu
        rw [hw, ← Option.some.inj hu] at hdue
        exact absurd hdue (not_le.mpr hlate)
    · rw [if_neg]
      · simp only [Option.filter_some, hlate, decide_false, Bool.false_eq_true, if_false]
      · intro hA
        exact ((hmem id).mp hA).2 _ (hq.mem_expired.mpr ⟨hin, not_lt.mp hlate⟩) rfl

theorem getExpired_heap (q : TimerQueue) (hq : q.Valid) (now : Int) :
    (q.getExpired now).1.heap = q.heap := by
  by_cases hnow : 0 < now
  · obtain ⟨A, heq, -, -⟩ := getExpired_eq hq hnow
    rw [heq]
  · rw [getExpired_invalid hnow]
    rfl

theorem getExpired_numCreated (hq : q.Valid) (now : Int) :
    (q.getExpired now).1.numCreated = q.numCreated := by
  by_cases hnow : 0 < now
  · obtain ⟨A, heq, -, -⟩ := getExpired_eq hq hnow
    rw [heq]
  · rw [getExpired_invalid hnow]
    rfl

/-- What holds of the vector `expired` from `getExpired` to `reset`: its timers are due,
alive and in neither set, at distinct addresses, in order of expiration. -/
structure BatchValid (q : TimerQueue) (expired : List Entry) (now : Int) : Prop where
  due : ∀ e ∈ expired, e.when ≤ now
  live : ∀ e ∈ expired, ∃ t, q.heap e.timer = some t ∧ t.expiration = e.when
  inactive : ∀ e ∈ expired, q.Inactive e.timer
  nodup : (expired.map Entry.timer).Nodup
  sorted : expired.Pairwise (fun e f => e.when ≤ f.when)
  now_pos : expired ≠ [] → 0 < now

theorem getExpired_batchValid (hq : q.Valid) (now : Int) :
    BatchValid (q.getExpired now).1 (q.getExpired now).2 now := by
  by_cases hnow : 0 < now
  · obtain ⟨A, heq, hmem, -⟩ := getExpired_eq hq hnow
    rw [heq]
    refine ⟨?_, ?_, ?_, ?_, ?_, fun _ => hnow⟩
    · intro e he
      exact (hq.mem_expired.mp he).2
    · intro e he
      obtain ⟨t, ht, -, hw⟩ := (hq.entry_iff e.when e.timer).mp (hq.mem_expired.mp he).1
      exact ⟨t, ht, hw.symm⟩
    · intro e he n hid
      exact ((hmem _).mp hid).2 e he rfl
    · exact hq.timer_nodup (q.timers.below_sorted _) (fun e he => (hq.mem_expired.mp he).1)
    · refine (q.timers.below_sorted (sentry now)).imp ?_
      intro e f hlt
      rcases Entry.lt_iff.mp hlt with h | ⟨h, -⟩
      · exact le_of_lt h
      · exact le_of_eq h
  · rw [getExpired_invalid hnow]
    exact ⟨by simp, by simp, by simp, by simp, by simp, by simp⟩

/-- Every scheduled timer that is due is in the batch. -/
theorem mem_getExpired (hq : q.Valid) {now : Int} (hnow : 0 < now) {id : TimerId} {t : Timer}
    (h : q.sched id = some t) (hdue : t.expiration ≤ now) :
    (⟨t.expiration, id.timer⟩ : Entry) ∈ (q.getExpired now).2 := by
  obtain ⟨A, heq, -, -⟩ := getExpired_eq hq hnow
  rw [heq]
  exact hq.mem_expired.mpr ⟨hq.mem_timers.mpr ⟨id.sequence, t, h, rfl⟩, hdue⟩

/-- Only scheduled timers are in the batch. -/
theorem sched_of_mem_getExpired (hq : q.Valid) {now : Int} {e : Entry}
    (he : e ∈ (q.getExpired now).2) :
    ∃ t, q.sched ⟨e.timer, t.sequence⟩ = some t ∧ t.expiration = e.when := by
  by_cases hnow : 0 < now
  · obtain ⟨A, heq, -, -⟩ := getExpired_eq hq hnow
    rw [heq] at he
    obtain ⟨t, ht, hact, hw⟩ := (hq.entry_iff e.when e.timer).mp (hq.mem_expired.mp he).1
    exact ⟨t, sched_eq_some.mpr ⟨hact, ht⟩, hw.symm⟩
  · rw [getExpired_invalid hnow] at he
    cases he

/-! ## `reset` -/

/-- `q'` agrees with `q` except for the timers at the addresses of `S`. -/
structure SameOff (S : List Addr) (q q' : TimerQueue) : Prop where
  heap : ∀ a ∉ S, q'.heap a = q.heap a
  active : ∀ id : TimerId, id.timer ∉ S → (id ∈ q'.activeTimers ↔ id ∈ q.activeTimers)
  canceling : q'.cancelingTimers = q.cancelingTimers
  calling : q'.callingExpiredTimers = q.callingExpiredTimers
  numCreated : q'.numCreated = q.numCreated
  timerfd : q'.timerfd = q.timerfd
  settimes : q'.settimes = q.settimes

theorem SameOff.refl (q : TimerQueue) : SameOff [] q q :=
  ⟨fun _ _ => rfl, fun _ _ => Iff.rfl, rfl, rfl, rfl, rfl, rfl⟩

theorem SameOff.trans {S T : List Addr} {q q' q'' : TimerQueue} (h : SameOff S q q')
    (h' : SameOff T q' q'') : SameOff (S ++ T) q q'' where
  heap a ha := by
    rw [List.mem_append, not_or] at ha
    rw [h'.heap a ha.2, h.heap a ha.1]
  active id hid := by
    rw [List.mem_append, not_or] at hid
    rw [h'.active id hid.2, h.active id hid.1]
  canceling := h'.canceling.trans h.canceling
  calling := h'.calling.trans h.calling
  numCreated := h'.numCreated.trans h.numCreated
  timerfd := h'.timerfd.trans h.timerfd
  settimes := h'.settimes.trans h.settimes

theorem SameOff.sched {S : List Addr} {q q' : TimerQueue} (h : SameOff S q q') {id : TimerId}
    (hid : id.timer ∉ S) : q'.sched id = q.sched id := by
  unfold TimerQueue.sched
  simp only [h.active id hid, h.heap id.timer hid]

theorem SameOff.inactive {S : List Addr} {q q' : TimerQueue} (h : SameOff S q q') {a : Addr}
    (ha : a ∉ S) (hq : q.Inactive a) : q'.Inactive a :=
  fun n hn => hq n ((h.active ⟨a, n⟩ ha).mp hn)

theorem SameOff.report {S : List Addr} {q q' : TimerQueue} (h : SameOff S q q') (r : Report) :
    SameOff S q (q'.report r) :=
  ⟨h.heap, h.active, h.canceling, h.calling, h.numCreated, h.timerfd, h.settimes⟩

theorem SameOff.check {S : List Addr} {q q' : TimerQueue} (h : SameOff S q q') (c : Bool)
    (r : Report) : SameOff S q (q'.check c r) := by
  cases c
  · exact h.report r
  · exact h

theorem sameOff_setHeap (q : TimerQueue) (a : Addr) (x : Option Timer) :
    SameOff [a] q (q.setHeap a x) :=
  ⟨fun _ hb => setHeap_other x (by simpa using hb), fun _ _ => Iff.rfl, rfl, rfl, rfl, rfl, rfl⟩

theorem sameOff_file (q : TimerQueue) (a : Addr) (t : Timer) : SameOff [a] q (q.file a t) where
  heap _ _ := rfl
  active id hid := by
    show id ∈ (q.activeTimers.insert _).1 ↔ _
    rw [OrderedSet.mem_insert]
    refine ⟨fun h => h.resolve_left (fun he => hid ?_), Or.inr⟩
    rw [he]
    exact List.mem_cons_self
  canceling := rfl
  calling := rfl
  numCreated := rfl
  timerfd := rfl
  settimes := rfl

/-- The timer that `reset` puts back under an id: a periodic one that has not been
cancelled meanwhile, restarted. -/
def restarted (q : TimerQueue) (now : Int) (id : TimerId) : Option Timer :=
  match q.heap id.timer with
  | none => none
  | some t =>
    if t.sequence = id.sequence ∧ t.repeats = true ∧ id ∉ q.cancelingTimers then
      some (t.restart now)
    else none

/-- **The body of `reset`** on a timer of the batch: it is filed again under its new
expiration, or deleted. -/
theorem resetOne_eq (hq : q.Valid) {e : Entry} {t : Timer} (ht : q.heap e.timer = some t)
    (ha : q.Inactive e.timer) (now : Int) :
    resetOne now q e =
      if t.repeats = true ∧ (⟨e.timer, t.sequence⟩ : TimerId) ∉ q.cancelingTimers then
        ((q.setHeap e.timer (some (t.restart now))).file e.timer (t.restart now)).check
          (isEarliest q.timers (t.restart now).expiration) .reinsert
      else q.setHeap e.timer none := by
  have hnull := (hq.live_addr _ t ht).1
  have hins := insert_eq (hq.toBijective.setHeap ha (some (t.restart now))) hnull
    (setHeap_self e.timer (some (t.restart now))) ha
  simp only [resetOne, hnull, if_false, ht, hins, isNone_find_canceling, OrderedSet.iterSet_toSet]
  rfl

theorem resetOne_valid (hq : q.Valid) {e : Entry} {t : Timer} (ht : q.heap e.timer = some t)
    (ha : q.Inactive e.timer) (now : Int) : (resetOne now q e).Valid := by
  rw [resetOne_eq hq ht ha]
  split
  · refine Valid.check (Valid.file ?_ (setHeap_self _ _) ha) _ rfl
    exact hq.setHeap_some ha ht (t.restart_sequence now)
  · exact hq.setHeap_none (hq.toBijective.setHeap ha none)

theorem resetOne_sameOff (hq : q.Valid) {e : Entry} {t : Timer} (ht : q.heap e.timer = some t)
    (ha : q.Inactive e.timer) (now : Int) : SameOff [e.timer] q (resetOne now q e) := by
  rw [resetOne_eq hq ht ha]
  split
  · have h := (sameOff_setHeap q e.timer (some (t.restart now))).trans
      (sameOff_file _ e.timer (t.restart now))
    refine SameOff.check ⟨?_, ?_, h.canceling, h.calling, h.numCreated, h.timerfd, h.settimes⟩ _ _
    · intro a ha
      exact h.heap a (by simpa using ha)
    · intro id hid
      exact h.active id (by simpa using hid)
  · exact sameOff_setHeap q e.timer none

theorem sched_resetOne (hq : q.Valid) {e : Entry} {t : Timer} (ht : q.heap e.timer = some t)
    (ha : q.Inactive e.timer) (now : Int) {id : TimerId} (hid : id.timer = e.timer) :
    (resetOne now q e).sched id = q.restarted now id := by
  have hnone : q.sched id = none := by
    rw [show id = ⟨e.timer, id.sequence⟩ from by rw [← hid]]
    exact ha.sched_eq_none _
  rw [resetOne_eq hq ht ha, restarted, hid, ht]
  by_cases hseq : t.sequence = id.sequence
  · have hid' : (⟨e.timer, t.sequence⟩ : TimerId) = id := by rw [← hid, hseq]
    rw [hid']
    by_cases hkeep : t.repeats = true ∧ id ∉ q.cancelingTimers
    · simp only [if_pos hkeep, if_pos (And.intro hseq hkeep)]
      rw [sched_check, sched_file (setHeap_self _ _), if_pos]
      rw [← hid', Timer.restart_sequence]
    · rw [if_neg hkeep]
      simp only [hseq, true_and]
      rw [if_neg hkeep, sched_setHeap ha, hnone]
  · simp only [hseq, false_and, if_false]
    split
    · rw [sched_check, sched_file (setHeap_self _ _), if_neg, sched_setHeap ha, hnone]
      intro he
      rw [he, Timer.restart_sequence] at hseq
      exact hseq rfl
    · rw [sched_setHeap ha, hnone]

/-- A timer of the batch that `reset` has not deleted is scheduled. -/
theorem resetOne_live (hq : q.Valid) {e : Entry} {t : Timer} (ht : q.heap e.timer = some t)
    (ha : q.Inactive e.timer) (now : Int) {u : Timer}
    (hu : (resetOne now q e).heap e.timer = some u) :
    (resetOne now q e).sched ⟨e.timer, u.sequence⟩ = some u := by
  rw [resetOne_eq hq ht ha] at hu ⊢
  by_cases hkeep : t.repeats = true ∧ (⟨e.timer, t.sequence⟩ : TimerId) ∉ q.cancelingTimers
  · simp only [if_pos hkeep] at hu ⊢
    have hheap : ((q.setHeap e.timer (some (t.restart now))).file e.timer
        (t.restart now)).heap e.timer = some (t.restart now) := setHeap_self _ _
    rw [heap_check, hheap] at hu
    rw [sched_check, sched_file (setHeap_self _ _), if_pos (by rw [Option.some.inj hu]), hu]
  · rw [if_neg hkeep, setHeap_self] at hu
    cases hu

theorem SameOff.restarted {S : List Addr} {q q' : TimerQueue} (h : SameOff S q q') (now : Int)
    {id : TimerId} (hid : id.timer ∉ S) : q'.restarted now id = q.restarted now id := by
  unfold TimerQueue.restarted
  rw [h.heap id.timer hid, h.canceling]

/-- The timers of the entries are alive and in neither set, at distinct addresses. -/
structure Detached (q : TimerQueue) (l : List Entry) : Prop where
  live : ∀ e ∈ l, ∃ t, q.heap e.timer = some t
  inactive : ∀ e ∈ l, q.Inactive e.timer
  nodup : (l.map Entry.timer).Nodup

theorem BatchValid.detached {expired : List Entry} {now : Int} (hb : BatchValid q expired now) :
    q.Detached expired :=
  ⟨fun e he => (hb.live e he).imp fun _ h => h.1, hb.inactive, hb.nodup⟩

theorem Detached.append_left {l l' : List Entry} (h : q.Detached (l ++ l')) : q.Detached l := by
  refine ⟨?_, ?_, ?_⟩
  · intro e he
    exact h.live e (List.mem_append_left _ he)
  · intro e he
    exact h.inactive e (List.mem_append_left _ he)
  · have hnodup := h.nodup
    rw [List.map_append] at hnodup
    exact (List.nodup_append.mp hnodup).1

/-- `resetOne` does not touch the rest of the batch. -/
theorem Detached.tail (hq : q.Valid) {e : Entry} {l : List Entry} (h : q.Detached (e :: l))
    (now : Int) : (resetOne now q e).Detached l := by
  obtain ⟨t, ht⟩ := h.live e List.mem_cons_self
  obtain ⟨hnot, hnodup⟩ := List.nodup_cons.mp h.nodup
  have hsame := resetOne_sameOff hq ht (h.inactive e List.mem_cons_self) now
  have hother : ∀ f ∈ l, f.timer ∉ [e.timer] := by
    intro f hf hmem
    exact hnot (List.mem_map.mpr ⟨f, hf, List.mem_singleton.mp hmem⟩)
  refine ⟨?_, ?_, hnodup⟩
  · intro f hf
    rw [hsame.heap _ (hother f hf)]
    exact h.live f (List.mem_cons_of_mem _ hf)
  · intro f hf
    exact hsame.inactive (hother f hf) (h.inactive f (List.mem_cons_of_mem _ hf))

/-- The loop of `reset`. -/
theorem foldl_resetOne (now : Int) (l : List Entry) (q : TimerQueue) (hq : q.Valid)
    (hl : q.Detached l) :
    (l.foldl (resetOne now) q).Valid ∧
      SameOff (l.map Entry.timer) q (l.foldl (resetOne now) q) ∧
      (∀ id : TimerId, id.timer ∈ l.map Entry.timer →
        (l.foldl (resetOne now) q).sched id = q.restarted now id) ∧
      ∀ a ∈ l.map Entry.timer, ∀ u, (l.foldl (resetOne now) q).heap a = some u →
        (l.foldl (resetOne now) q).sched ⟨a, u.sequence⟩ = some u := by
  induction l generalizing q with
  | nil => exact ⟨hq, SameOff.refl q, by simp, by simp⟩
  | cons e l ih =>
    obtain ⟨t, ht⟩ := hl.live e List.mem_cons_self
    have ha := hl.inactive e List.mem_cons_self
    have hnot : e.timer ∉ l.map Entry.timer := (List.nodup_cons.mp hl.nodup).1
    have hsame := resetOne_sameOff hq ht ha now
    obtain ⟨hvalid, hoff, hsched, hlive'⟩ :=
      ih (resetOne now q e) (resetOne_valid hq ht ha now) (hl.tail hq now)
    refine ⟨hvalid, hsame.trans hoff, ?_, ?_⟩
    · intro id hid
      rw [List.foldl_cons]
      by_cases hl : id.timer ∈ l.map Entry.timer
      · rw [hsched id hl]
        refine hsame.restarted now (fun h => hnot ?_)
        rw [← List.mem_singleton.mp h]
        exact hl
      · have he : id.timer = e.timer := (List.mem_cons.mp hid).resolve_right hl
        rw [hoff.sched hl, sched_resetOne hq ht ha now he]
    · intro a ha' u hu
      rw [List.foldl_cons] at hu ⊢
      by_cases hl : a ∈ l.map Entry.timer
      · exact hlive' a hl u hu
      · obtain rfl : a = e.timer := (List.mem_cons.mp ha').resolve_right hl
        rw [hoff.heap _ hl] at hu
        have hsame' : (l.foldl (resetOne now) (resetOne now q e)).sched ⟨e.timer, u.sequence⟩ =
            (resetOne now q e).sched ⟨e.timer, u.sequence⟩ := hoff.sched hl
        rw [hsame']
        exact resetOne_live hq ht ha now hu

/-- What `resetTimerfd` leaves alone: everything but the timerfd. -/
theorem Valid.resetTimerfd (hq : q.Valid) (clock : Clock) (expiration : Int) :
    (q.resetTimerfd clock expiration).Valid :=
  ⟨⟨hq.entry_iff, hq.active_live, hq.size_eq⟩, hq.live_addr, hq.live_seq, hq.clean⟩

/-- The expiration of the first entry. -/
def firstExpiration (timers : OrderedSet Entry) : Int :=
  (timers.first?.map Entry.when).getD Timestamp.invalid

/-- `reset` reads the first timer of `timers_` while it is alive. -/
theorem nextExpire_eq (hq : q.Valid) : q.nextExpire = (q, firstExpiration q.timers) := by
  rw [nextExpire_of_first, firstExpiration, OrderedSet.iterSet_toSet]
  cases hfirst : q.timers.first? with
  | none => rfl
  | some e =>
    obtain ⟨t, ht, -, hw⟩ := (hq.entry_iff e.when e.timer).mp (OrderedSet.first?_mem hfirst)
    simp only [ht, hw, Option.map_some, Option.getD_some]

/-- `reset` arms the timerfd after its loop, if a timer is left. -/
theorem reset_eq (clock : Clock) {expired : List Entry} {now : Int} (hnow : 0 < now)
    (hvalid : (expired.foldl (resetOne now) q).Valid) :
    q.reset clock expired now =
      if Timestamp.valid (firstExpiration (expired.foldl (resetOne now) q).timers) then
        (expired.foldl (resetOne now) q).resetTimerfd clock
          (firstExpiration (expired.foldl (resetOne now) q).timers)
      else expired.foldl (resetOne now) q := by
  simp [reset, Timestamp.valid, hnow, nextExpire_eq hvalid]

/-- **`reset`**: every timer of the batch is back on the schedule if it is periodic and
has not been cancelled, and deleted otherwise; the other timers are left alone. -/
theorem reset_spec (hq : q.Valid) (clock : Clock) {expired : List Entry} {now : Int}
    (hb : BatchValid q expired now) :
    (q.reset clock expired now).Valid ∧
      (∀ id : TimerId, id.timer ∈ expired.map Entry.timer →
        (q.reset clock expired now).sched id = q.restarted now id) ∧
      (∀ a ∉ expired.map Entry.timer, (q.reset clock expired now).heap a = q.heap a) ∧
      (∀ id : TimerId, id.timer ∉ expired.map Entry.timer →
        (id ∈ (q.reset clock expired now).activeTimers ↔ id ∈ q.activeTimers)) ∧
      (q.reset clock expired now).numCreated = q.numCreated ∧
      (q.reset clock expired now).callingExpiredTimers = q.callingExpiredTimers ∧
      ∀ a ∈ expired.map Entry.timer, ∀ u, (q.reset clock expired now).heap a = some u →
        (q.reset clock expired now).sched ⟨a, u.sequence⟩ = some u := by
  by_cases hnow : 0 < now
  · obtain ⟨hvalid, hoff, hsched, hlive⟩ := foldl_resetOne now expired q hq hb.detached
    rw [reset_eq clock hnow hvalid]
    split
    · exact ⟨hvalid.resetTimerfd _ _, hsched, hoff.heap, hoff.active, hoff.numCreated,
        hoff.calling, hlive⟩
    · exact ⟨hvalid, hsched, hoff.heap, hoff.active, hoff.numCreated, hoff.calling, hlive⟩
  · have hnil : expired = [] := by
      by_contra h
      exact hnow (hb.now_pos h)
    subst hnil
    have hreset : q.reset clock [] now = q.report .resetInvalid := by
      simp [reset, Timestamp.valid, hnow]
    rw [hreset]
    exact ⟨hq.report rfl, by simp, fun _ _ => rfl, fun _ _ => Iff.rfl, rfl, rfl, by simp⟩

/-! ## `addTimerInLoop` and `cancelInLoop` as updates of the schedule -/

theorem addTimerInLoop_eq (hq : q.Valid) (clock : Clock) {a : Addr} {t : Timer}
    (ht : q.heap a = some t) (ha : q.Inactive a) :
    q.addTimerInLoop clock a =
      if isEarliest q.timers t.expiration then (q.file a t).resetTimerfd clock t.expiration
      else q.file a t := by
  have hnull := (hq.live_addr a t ht).1
  have hheap : (q.file a t).heap a = some t := ht
  simp only [addTimerInLoop, hnull, if_false, insert_eq hq.toBijective hnull ht ha, hheap]

theorem addTimerInLoop_valid (hq : q.Valid) (clock : Clock) {a : Addr} {t : Timer}
    (ht : q.heap a = some t) (ha : q.Inactive a) : (q.addTimerInLoop clock a).Valid := by
  rw [addTimerInLoop_eq hq clock ht ha]
  split
  · exact (hq.file ht ha).resetTimerfd _ _
  · exact hq.file ht ha

theorem sched_addTimerInLoop (hq : q.Valid) (clock : Clock) {a : Addr} {t : Timer}
    (ht : q.heap a = some t) (ha : q.Inactive a) (id : TimerId) :
    (q.addTimerInLoop clock a).sched id = if id = ⟨a, t.sequence⟩ then some t else q.sched id := by
  rw [addTimerInLoop_eq hq clock ht ha]
  split <;> exact sched_file ht id

/-- Whatever is not filed by `addTimerInLoop` is left alone. -/
theorem addTimerInLoop_frame (hq : q.Valid) (clock : Clock) {a : Addr} {t : Timer}
    (ht : q.heap a = some t) (ha : q.Inactive a) :
    (q.addTimerInLoop clock a).heap = q.heap ∧
      (q.addTimerInLoop clock a).callingExpiredTimers = q.callingExpiredTimers ∧
      (q.addTimerInLoop clock a).cancelingTimers = q.cancelingTimers ∧
      (q.addTimerInLoop clock a).numCreated = q.numCreated ∧
      ∀ id : TimerId, id.timer ≠ a →
        (id ∈ (q.addTimerInLoop clock a).activeTimers ↔ id ∈ q.activeTimers) := by
  have hact : ∀ id : TimerId, id.timer ≠ a →
      (id ∈ (q.file a t).activeTimers ↔ id ∈ q.activeTimers) :=
    fun id hid => (sameOff_file q a t).active id (by simpa using hid)
  rw [addTimerInLoop_eq hq clock ht ha]
  split
  · exact ⟨rfl, rfl, rfl, rfl, hact⟩
  · exact ⟨rfl, rfl, rfl, rfl, hact⟩

theorem Valid.sched_eq_none (hq : q.Valid) {id : TimerId} :
    q.sched id = none ↔ id ∉ q.activeTimers := by
  constructor
  · intro h hid
    obtain ⟨t, ht, -⟩ := hq.active_live id hid
    rw [sched_eq_some.mpr ⟨hid, ht⟩] at h
    cases h
  · intro h
    exact if_neg h

theorem cancelInLoop_eq_of_none (hq : q.Valid) {id : TimerId} (h : q.sched id = none) :
    q.cancelInLoop id =
      if id.timer = nullptr then q.report .cancelNull
      else if q.callingExpiredTimers then
        { q with cancelingTimers := (q.cancelingTimers.insert id).1 }
      else q := by
  rw [q.cancelInLoop_of_notMem (hq.sched_eq_none.mp h)]
  rfl

theorem Valid.ne_nullptr_of_sched (hq : q.Valid) {id : TimerId} {t : Timer}
    (h : q.sched id = some t) : id.timer ≠ nullptr :=
  (hq.live_addr _ t (sched_eq_some.mp h).2).1

theorem cancelInLoop_valid (hq : q.Valid) (id : TimerId) : (q.cancelInLoop id).Valid := by
  cases h : q.sched id with
  | some t =>
    rw [cancelInLoop_eq hq.toBijective (hq.ne_nullptr_of_sched h) h]
    exact hq.unfile h
  | none =>
    rw [cancelInLoop_eq_of_none hq h]
    split
    · exact hq.report rfl
    · split
      · exact ⟨⟨hq.entry_iff, hq.active_live, hq.size_eq⟩, hq.live_addr, hq.live_seq, hq.clean⟩
      · exact hq

theorem sched_cancelInLoop (hq : q.Valid) (id i : TimerId) :
    (q.cancelInLoop id).sched i = if i = id then none else q.sched i := by
  cases h : q.sched id with
  | some t =>
    rw [cancelInLoop_eq hq.toBijective (hq.ne_nullptr_of_sched h) h]
    exact sched_unfile hq.toBijective h i
  | none =>
    have hsame : (q.cancelInLoop id).sched i = q.sched i := by
      rw [cancelInLoop_eq_of_none hq h]
      split
      · rfl
      · split <;> rfl
    rw [hsame]
    split
    · rename_i hi
      rw [hi, h]
    · rfl

/-- `cancelInLoop` frees timers and changes none. -/
theorem cancelInLoop_heap (hq : q.Valid) {id : TimerId} {a : Addr} {t : Timer}
    (h : (q.cancelInLoop id).heap a = some t) : q.heap a = some t := by
  cases hid : q.sched id with
  | some u =>
    rw [cancelInLoop_eq hq.toBijective (hq.ne_nullptr_of_sched hid) hid] at h
    by_cases ha : a = id.timer
    · rw [ha, TimerQueue.unfile, setHeap_self] at h
      cases h
    · exact (setHeap_other none ha).symm.trans h
  | none =>
    rw [cancelInLoop_eq_of_none hq hid] at h
    split at h
    · exact h
    · split at h <;> exact h

theorem mem_canceling_cancelInLoop_other (hq : q.Valid) {id i : TimerId} (hi : i ≠ id) :
    i ∈ (q.cancelInLoop id).cancelingTimers ↔ i ∈ q.cancelingTimers := by
  cases hid : q.sched id with
  | some u =>
    rw [cancelInLoop_eq hq.toBijective (hq.ne_nullptr_of_sched hid) hid]
    rfl
  | none =>
    rw [cancelInLoop_eq_of_none hq hid]
    split
    · rfl
    · split
      · exact OrderedSet.mem_insert.trans (or_iff_right hi)
      · rfl

/-- `cancelInLoop` touches no timer that is not scheduled. -/
theorem cancelInLoop_frame (hq : q.Valid) (id : TimerId) :
    (∀ a, q.Inactive a → (q.cancelInLoop id).heap a = q.heap a) ∧
      (∀ a, q.Inactive a → (q.cancelInLoop id).Inactive a) ∧
      (q.cancelInLoop id).callingExpiredTimers = q.callingExpiredTimers ∧
      (q.cancelInLoop id).numCreated = q.numCreated := by
  cases h : q.sched id with
  | some t =>
    obtain ⟨hid, -⟩ := sched_eq_some.mp h
    rw [cancelInLoop_eq hq.toBijective (hq.ne_nullptr_of_sched h) h]
    refine ⟨?_, ?_, rfl, rfl⟩
    · intro a ha
      exact setHeap_other none (fun he => ha id.sequence (he ▸ hid))
    · intro a ha n hn
      exact ha n (OrderedSet.mem_erase.mp hn).2
  | none =>
    rw [cancelInLoop_eq_of_none hq h]
    split
    · exact ⟨fun _ _ => rfl, fun _ ha => ha, rfl, rfl⟩
    · split <;> exact ⟨fun _ _ => rfl, fun _ ha => ha, rfl, rfl⟩

/-- A timer of the running batch cannot be found by `cancelInLoop`: its cancellation is
noted for `reset`. -/
theorem mem_canceling_cancelInLoop (hq : q.Valid) {id : TimerId} (hnull : id.timer ≠ nullptr)
    (hid : q.sched id = none) (hcalling : q.callingExpiredTimers = true) :
    id ∈ (q.cancelInLoop id).cancelingTimers := by
  rw [cancelInLoop_eq_of_none hq hid, if_neg hnull, if_pos hcalling]
  exact OrderedSet.mem_insert.mpr (Or.inl rfl)

end TimerQueue
end ReMuduo
