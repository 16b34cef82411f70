import Mathlib.Data.Int.Notation
import Mathlib.Tactic.Linarith
import SampleTools.Library.Run

/-!
# The scheduler loop of `sample_cron`

A round reads the clock, runs the tasks one after another that are due by that reading, and
sleeps for a minute. The next round starts a minute after the last command ended, so rounds
drift through the minutes of the wall clock.

Times are nanoseconds, as the system clock has them; minutes of the wall clock are counted from
the same origin, and a time zone says how far each of them is shifted.

## Main definitions

* `Task.Due`, `Task.Matches`: the test of the code, and what a pattern means
* `Cron.runTasks`, `Cron.round`: a round
* `Cron.FiresOnce`: the tasks were run once in every minute they should
* `Cron.Meets`: a round that lets no task down

## Main results

* `Task.due_iff`: the pattern that the test forgets
* `Cron.countP_runTasks`: when a round runs a task
* `Cron.firesOnce_iff`: when tasks are run as they should
-/

namespace SampleTools

/-- `std::tm`, as far as the program reads it. -/
structure ClockTime where
  hour : ℤ
  min : ℤ
  deriving DecidableEq, Repr

/-- `Task`; `-1` is every minute or hour. -/
structure Task where
  minute : ℤ
  hour : ℤ
  deriving DecidableEq, Repr

namespace Task

/-- The test of the loop. -/
def Due (task : Task) (timeinfo : ClockTime) : Prop :=
  (task.hour = timeinfo.hour ∧ task.minute = timeinfo.min) ∨
    (task.minute = -1 ∧ task.hour = timeinfo.hour) ∨ (task.minute = -1 ∧ task.hour = -1)

instance (task : Task) (timeinfo : ClockTime) : Decidable (task.Due timeinfo) :=
  inferInstanceAs (Decidable (_ ∨ _))

/-- The minute is one of the pattern. -/
def Matches (task : Task) (timeinfo : ClockTime) : Prop :=
  (task.hour = -1 ∨ task.hour = timeinfo.hour) ∧ (task.minute = -1 ∨ task.minute = timeinfo.min)

instance (task : Task) (timeinfo : ClockTime) : Decidable (task.Matches timeinfo) :=
  inferInstanceAs (Decidable (_ ∧ _))

end Task

/-! ## The clock -/

/-- `to_time_t`. -/
def toTimeT (now : ℕ) : ℕ := now / 1000000000

/-- What the wall clock shows in a minute. -/
def wallClock (zone : ℕ → ℤ) (minute : ℕ) : ClockTime :=
  let shown := minute + zone minute
  ⟨shown / 60 % 24, shown % 60⟩

/-- `localtime`. -/
def localtime (zone : ℕ → ℤ) (currentTime : ℕ) : ClockTime := wallClock zone (currentTime / 60)

/-- The minute of the wall clock a time is in. -/
def minuteOf (now : ℕ) : ℕ := toTimeT now / 60

/-- `std::chrono::minutes(1)`. -/
def oneMinute : ℕ := 60000000000

/-! ## Rounds -/

/-- The loop has a task at this place, and it is due. -/
def Runs (tasks : List Task) (timeinfo : ClockTime) (i : ℕ) : Prop :=
  ∃ task ∈ tasks[i]?, task.Due timeinfo

instance (tasks : List Task) (timeinfo : ClockTime) (i : ℕ) : Decidable (Runs tasks timeinfo i) :=
  inferInstanceAs (Decidable (∃ task ∈ tasks[i]?, task.Due timeinfo))

/-- How long the commands of the first `n` tasks take; `dur` are the times of the commands. -/
def elapsed (tasks : List Task) (timeinfo : ClockTime) (dur : ℕ → ℕ) : ℕ → ℕ
  | 0 => 0
  | n + 1 => elapsed tasks timeinfo dur n + if Runs tasks timeinfo n then dur n else 0

/-- When the next round starts, when the last one did, and which task was executed when. -/
structure Cron where
  now : ℕ
  previous : Option ℕ := none
  executions : List (ℕ × ℕ) := []

namespace Cron

/-- The loop over the first `n` tasks: what is executed when, and the time afterwards. -/
def runTasks (tasks : List Task) (timeinfo : ClockTime) (dur : ℕ → ℕ) (now : ℕ) :
    ℕ → List (ℕ × ℕ) × ℕ
  | 0 => ([], now)
  | n + 1 =>
    let (executions, clock) := runTasks tasks timeinfo dur now n
    if Runs tasks timeinfo n then (executions ++ [(n, clock)], clock + dur n)
    else (executions, clock)

/-- A round of the loop. -/
def round (tasks : List Task) (zone : ℕ → ℤ) (s : Cron) (dur : ℕ → ℕ) : Option Cron :=
  let timeinfo := localtime zone (toTimeT s.now)
  let (executions, clock) := runTasks tasks timeinfo dur s.now tasks.length
  some
    { now := clock + oneMinute
      previous := some s.now
      executions := s.executions ++ executions }

/-- How often a task was executed in a minute. -/
def executedIn (i minute : ℕ) (executions : List (ℕ × ℕ)) : ℕ :=
  executions.countP fun e => e.1 = i ∧ minuteOf e.2 = minute

/-- Every task was executed once in every minute of its pattern, from that of the first round to
that of the last. -/
def FiresOnce (tasks : List Task) (zone : ℕ → ℤ) (first : ℕ) (s : Cron) : Prop :=
  ∀ i, ∀ task ∈ tasks[i]?, ∀ minute, minuteOf first ≤ minute →
    (∃ last ∈ s.previous, minute ≤ minuteOf last) → task.Matches (wallClock zone minute) →
    executedIn i minute s.executions = 1

/-- A round that lets no task down: since the round before, no minute of any pattern went by; no
pattern of a fixed minute of every hour has this minute; and the commands that are executed
start before the minute is over. -/
structure Meets (tasks : List Task) (zone : ℕ → ℤ) (s : Cron) (dur : ℕ → ℕ) : Prop where
  noneSkipped : ∀ last ∈ s.previous, ∀ minute, minuteOf last < minute → minute < minuteOf s.now →
    ∀ task ∈ tasks, ¬ task.Matches (wallClock zone minute)
  everyHour : ∀ task ∈ tasks, task.Matches (wallClock zone (minuteOf s.now)) →
    task.hour = -1 → task.minute = -1
  inTime : ∀ i, Runs tasks (wallClock zone (minuteOf s.now)) i →
    minuteOf (s.now + elapsed tasks (wallClock zone (minuteOf s.now)) dur i) = minuteOf s.now

end Cron

theorem Cron.meets_iff {tasks : List Task} {zone : ℕ → ℤ} {s : Cron} {dur : ℕ → ℕ} :
    s.Meets tasks zone dur ↔
      (∀ last ∈ s.previous, ∀ minute < minuteOf s.now, minuteOf last < minute →
        ∀ task ∈ tasks, ¬ task.Matches (wallClock zone minute)) ∧
      (∀ task ∈ tasks, task.Matches (wallClock zone (minuteOf s.now)) →
        task.hour = -1 → task.minute = -1) ∧
      ∀ i < tasks.length, Runs tasks (wallClock zone (minuteOf s.now)) i →
        minuteOf (s.now + elapsed tasks (wallClock zone (minuteOf s.now)) dur i) =
          minuteOf s.now := by
  constructor
  · rintro ⟨hskipped, hhour, hin⟩
    exact ⟨fun last hlast minute hlt hlt' => hskipped last hlast minute hlt' hlt, hhour,
      fun i _ hruns => hin i hruns⟩
  · rintro ⟨hskipped, hhour, hin⟩
    refine ⟨fun last hlast minute hlt hlt' => hskipped last hlast minute hlt' hlt, hhour, ?_⟩
    intro i hruns
    obtain ⟨task, htask, -⟩ := id hruns
    exact hin i (List.getElem?_eq_some_iff.mp htask).1 hruns

instance (tasks : List Task) (zone : ℕ → ℤ) (s : Cron) (dur : ℕ → ℕ) :
    Decidable (s.Meets tasks zone dur) := decidable_of_iff' _ Cron.meets_iff

/-! ## What a round does -/

variable {tasks : List Task} {zone : ℕ → ℤ} {timeinfo : ClockTime} {dur : ℕ → ℕ}
  {i n now minute : ℕ}

theorem minuteOf_mono {t t' : ℕ} (h : t ≤ t') : minuteOf t ≤ minuteOf t' :=
  Nat.div_le_div_right (Nat.div_le_div_right h)

/-- A minute later is in a later minute. -/
theorem minuteOf_lt {t t' : ℕ} (h : t + oneMinute ≤ t') : minuteOf t < minuteOf t' := by
  unfold minuteOf toTimeT oneMinute at *
  omega

theorem Task.Due.matches {task : Task} (h : task.Due timeinfo) : task.Matches timeinfo := by
  unfold Task.Due at h
  unfold Task.Matches
  omega

/-- The test forgets patterns of a fixed minute of every hour. -/
theorem Task.due_iff {task : Task} (h : task.Matches (wallClock zone minute)) :
    task.Due (wallClock zone minute) ↔ (task.hour = -1 → task.minute = -1) := by
  have hhour : 0 ≤ (wallClock zone minute).hour := Int.emod_nonneg _ (by decide)
  unfold Task.Matches at h
  unfold Task.Due
  omega

theorem le_elapsed (tasks : List Task) (timeinfo : ClockTime) (dur : ℕ → ℕ) {m n : ℕ}
    (h : m ≤ n) : elapsed tasks timeinfo dur m ≤ elapsed tasks timeinfo dur n := by
  induction n, h using Nat.le_induction with
  | base => exact le_refl _
  | succ n _ ih => exact ih.trans (Nat.le_add_right _ _)

namespace Cron

theorem executedIn_append (i minute : ℕ) (es es' : List (ℕ × ℕ)) :
    executedIn i minute (es ++ es') = executedIn i minute es + executedIn i minute es' :=
  List.countP_append

theorem executedIn_eq_zero {es : List (ℕ × ℕ)} (h : ∀ e ∈ es, minuteOf e.2 ≠ minute) (i : ℕ) :
    executedIn i minute es = 0 := by
  apply List.countP_eq_zero.mpr
  intro e he hcount
  exact h e he (of_decide_eq_true hcount).2

theorem runTasks_snd (tasks : List Task) (timeinfo : ClockTime) (dur : ℕ → ℕ) (now n : ℕ) :
    (runTasks tasks timeinfo dur now n).2 = now + elapsed tasks timeinfo dur n := by
  induction n with
  | zero => rfl
  | succ n ih =>
    rw [runTasks, elapsed, ← Nat.add_assoc, ← ih]
    dsimp only
    split_ifs <;> rfl

theorem runTasks_succ (tasks : List Task) (timeinfo : ClockTime) (dur : ℕ → ℕ) (now n : ℕ) :
    (runTasks tasks timeinfo dur now (n + 1)).1 = (runTasks tasks timeinfo dur now n).1 ++
      if Runs tasks timeinfo n then [(n, now + elapsed tasks timeinfo dur n)] else [] := by
  rw [runTasks, ← runTasks_snd]
  dsimp only
  split_ifs
  · rfl
  · exact (List.append_nil _).symm

/-- What a round executes, it executes after it has begun. -/
theorem exists_of_mem_runTasks {e : ℕ × ℕ} (he : e ∈ (runTasks tasks timeinfo dur now n).1) :
    e.1 < n ∧ Runs tasks timeinfo e.1 ∧ e.2 = now + elapsed tasks timeinfo dur e.1 := by
  induction n with
  | zero => cases he
  | succ n ih =>
    rw [runTasks_succ] at he
    rcases List.mem_append.mp he with he | he
    · obtain ⟨hlt, hruns⟩ := ih he
      exact ⟨Nat.lt_succ_of_lt hlt, hruns⟩
    · split_ifs at he with hruns
      · rw [List.mem_singleton.mp he]
        exact ⟨Nat.lt_succ_self n, hruns, rfl⟩
      · cases he

/-- A round executes a task once, if the task is due. -/
theorem executedIn_runTasks (tasks : List Task) (timeinfo : ClockTime) (dur : ℕ → ℕ)
    (now i minute n : ℕ) : executedIn i minute (runTasks tasks timeinfo dur now n).1 =
      if i < n ∧ Runs tasks timeinfo i ∧
        minuteOf (now + elapsed tasks timeinfo dur i) = minute then 1 else 0 := by
  induction n with
  | zero => rw [if_neg fun h => Nat.not_lt_zero i h.1]; rfl
  | succ n ih =>
    rw [runTasks_succ, executedIn_append, ih]
    by_cases hi : i = n
    · subst hi
      by_cases hruns : Runs tasks timeinfo i
      · simp [hruns, executedIn, List.countP_cons]
      · simp [hruns, executedIn]
    · have hlast : executedIn i minute (if Runs tasks timeinfo n then
          [(n, now + elapsed tasks timeinfo dur n)] else []) = 0 := by
        split_ifs <;> simp [executedIn, Ne.symm hi]
      have hlt : i < n + 1 ↔ i < n := by omega
      simp only [hlast, hlt, Nat.add_zero]

/-! ## Runs -/

/-- What holds between rounds: everything was executed a minute ago. -/
structure Timed (first : ℕ) (s : Cron) : Prop where
  executed : ∀ e ∈ s.executions, e.2 + oneMinute ≤ s.now
  start : s.previous = none → s.now = first ∧ s.executions = []
  previous : ∀ last ∈ s.previous, first ≤ last ∧ last + oneMinute ≤ s.now

/-- Everything was executed by the minute of the last round. -/
def InTime (s : Cron) : Prop :=
  ∀ last ∈ s.previous, ∀ e ∈ s.executions, minuteOf e.2 ≤ minuteOf last

variable {s s' : Cron} {first : ℕ}

theorem round_eq (hs : round tasks zone s dur = some s') :
    let tm := wallClock zone (minuteOf s.now)
    s'.now = s.now + elapsed tasks tm dur tasks.length + oneMinute ∧ s'.previous = some s.now ∧
      s'.executions = s.executions ++ (runTasks tasks tm dur s.now tasks.length).1 := by
  cases hs
  refine ⟨?_, rfl, rfl⟩
  rw [← runTasks_snd]
  rfl

theorem Timed.start_rounds (first : ℕ) : Timed first { now := first } :=
  ⟨nofun, fun _ => ⟨rfl, rfl⟩, nofun⟩

theorem Timed.step (h : s.Timed first) (hs : round tasks zone s dur = some s') :
    s'.Timed first := by
  obtain ⟨hnow, hprevious, hexecutions⟩ := round_eq hs
  constructor
  · intro e he
    rw [hexecutions] at he
    rcases List.mem_append.mp he with he | he
    · have hle := h.executed e he
      omega
    · obtain ⟨hlt, -, heq⟩ := exists_of_mem_runTasks he
      have hle := le_elapsed tasks (wallClock zone (minuteOf s.now)) dur hlt.le
      omega
  · intro hnone
    rw [hprevious] at hnone
    cases hnone
  · intro last hlast
    rw [hprevious] at hlast
    cases hlast
    refine ⟨?_, by omega⟩
    cases hp : s.previous with
    | none => exact (h.start hp).1.ge
    | some p =>
      have hfirst := h.previous p hp
      omega

/-- What a round adds to the executions of a task in a minute. -/
theorem executedIn_round (hs : round tasks zone s dur = some s') (i minute : ℕ) :
    executedIn i minute s'.executions = executedIn i minute s.executions +
      if Runs tasks (wallClock zone (minuteOf s.now)) i ∧
        minuteOf (s.now + elapsed tasks (wallClock zone (minuteOf s.now)) dur i) = minute
      then 1 else 0 := by
  obtain ⟨-, -, hexecutions⟩ := round_eq hs
  have hlt : Runs tasks (wallClock zone (minuteOf s.now)) i → i < tasks.length := by
    rintro ⟨task, htask, -⟩
    exact (List.getElem?_eq_some_iff.mp htask).1
  rw [hexecutions, executedIn_append, executedIn_runTasks]
  congr 1
  exact if_congr (and_iff_right_of_imp fun h => hlt h.1) rfl rfl

/-- In the minute of a round nothing was executed before it. -/
theorem Timed.minuteOf_lt (h : s.Timed first) {e : ℕ × ℕ} (he : e ∈ s.executions) :
    minuteOf e.2 < minuteOf s.now := SampleTools.minuteOf_lt (h.executed e he)

/-- A round leaves the minutes up to the last one as they are. -/
theorem Timed.executedIn_of_le (h : s.Timed first) (hs : round tasks zone s dur = some s')
    {last : ℕ} (hlast : last ∈ s.previous) (hle : minute ≤ minuteOf last) (i : ℕ) :
    executedIn i minute s'.executions = executedIn i minute s.executions := by
  have hlt := SampleTools.minuteOf_lt (h.previous last hlast).2
  rw [executedIn_round hs, if_neg, Nat.add_zero]
  rintro ⟨-, rfl⟩
  exact (hle.trans_lt hlt).not_ge (minuteOf_mono (Nat.le_add_right _ _))

theorem FiresOnce.of_round (h' : s'.FiresOnce tasks zone first) (h : s.Timed first)
    (hs : round tasks zone s dur = some s') : s.FiresOnce tasks zone first := by
  rintro i task htask minute hfirst ⟨last, hlast, hle⟩ hmatches
  have hlt := SampleTools.minuteOf_lt (h.previous last hlast).2
  rw [← h.executedIn_of_le hs hlast hle]
  refine h' i task htask minute hfirst ⟨s.now, ?_, by omega⟩ hmatches
  rw [(round_eq hs).2.1]
  rfl

/-- A round after which nothing is amiss lets no task down. -/
theorem FiresOnce.meets (h' : s'.FiresOnce tasks zone first) (h : s.Timed first)
    (hin : s.InTime) (hs : round tasks zone s dur = some s') : s.Meets tasks zone dur := by
  have hnow : ∃ last ∈ s'.previous, last = s.now := ⟨s.now, by rw [(round_eq hs).2.1]; rfl, rfl⟩
  have hfirst : minuteOf first ≤ minuteOf s.now := by
    apply minuteOf_mono
    cases hp : s.previous with
    | none => exact (h.start hp).1.ge
    | some p =>
      have hprevious := h.previous p hp
      omega
  -- in the minute of the round only the round itself executes
  have hround : ∀ i, ∀ task ∈ tasks[i]?, task.Matches (wallClock zone (minuteOf s.now)) →
      Runs tasks (wallClock zone (minuteOf s.now)) i ∧
        minuteOf (s.now + elapsed tasks (wallClock zone (minuteOf s.now)) dur i) =
          minuteOf s.now := by
    intro i task htask hmatches
    obtain ⟨last, hlast, rfl⟩ := hnow
    have hcount := h' i task htask _ hfirst ⟨_, hlast, le_refl _⟩ hmatches
    have hbefore := executedIn_eq_zero (fun e he => (h.minuteOf_lt he).ne) i
    rw [executedIn_round hs, hbefore] at hcount
    by_contra hnot
    rw [if_neg hnot] at hcount
    cases hcount
  constructor
  · intro last hlast minute hlt hlt' task htask hmatches
    obtain ⟨i, hi⟩ := List.mem_iff_getElem?.mp htask
    obtain ⟨now, hnow, rfl⟩ := hnow
    have hle := minuteOf_mono (h.previous last hlast).1
    have hcount := h' i task hi minute (by omega) ⟨_, hnow, hlt'.le⟩ hmatches
    have hbefore : executedIn i minute s.executions = 0 :=
      executedIn_eq_zero (fun e he => ((hin last hlast e he).trans_lt hlt).ne) i
    have hmono : minuteOf s.now ≤ minuteOf (s.now + elapsed tasks (wallClock zone
      (minuteOf s.now)) dur i) := minuteOf_mono (Nat.le_add_right _ _)
    rw [executedIn_round hs, hbefore, if_neg fun h => by omega] at hcount
    cases hcount
  · intro task htask hmatches hhour
    obtain ⟨i, hi⟩ := List.mem_iff_getElem?.mp htask
    obtain ⟨task', htask', hdue⟩ := (hround i task hi hmatches).1
    cases Option.some.inj (hi.symm.trans htask')
    exact (Task.due_iff hmatches).mp hdue hhour
  · rintro i ⟨task, htask, hdue⟩
    exact (hround i task htask hdue.matches).2

/-- A round that lets no task down leaves nothing amiss. -/
theorem Meets.firesOnce (hmeets : s.Meets tasks zone dur) (h : s.Timed first)
    (hfires : s.FiresOnce tasks zone first) (hs : round tasks zone s dur = some s') :
    s'.FiresOnce tasks zone first := by
  rintro i task htask minute hfirst ⟨now, hnow, hle⟩ hmatches
  rw [(round_eq hs).2.1] at hnow
  cases hnow
  rcases hle.eq_or_lt with rfl | hlt
  · have hdue : task.Due (wallClock zone (minuteOf s.now)) :=
      (Task.due_iff hmatches).mpr (hmeets.everyHour task (List.mem_of_getElem? htask) hmatches)
    have hruns : Runs tasks (wallClock zone (minuteOf s.now)) i := ⟨task, htask, hdue⟩
    have hbefore := executedIn_eq_zero (fun e he => (h.minuteOf_lt he).ne) i
    rw [executedIn_round hs, hbefore, if_pos ⟨hruns, hmeets.inTime i hruns⟩]
  · cases hp : s.previous with
    | none =>
      have hstart := (h.start hp).1
      rw [hstart] at hlt
      omega
    | some last =>
      by_cases hlast : minute ≤ minuteOf last
      · rw [h.executedIn_of_le hs hp hlast]
        exact hfires i task htask minute hfirst ⟨last, hp, hlast⟩ hmatches
      · exact absurd hmatches
          (hmeets.noneSkipped last hp minute (by omega) hlt task (List.mem_of_getElem? htask))

theorem Meets.inTime_round (hmeets : s.Meets tasks zone dur) (h : s.Timed first)
    (hs : round tasks zone s dur = some s') : s'.InTime := by
  obtain ⟨-, hprevious, hexecutions⟩ := round_eq hs
  intro last hlast e he
  rw [hprevious] at hlast
  cases hlast
  rw [hexecutions] at he
  rcases List.mem_append.mp he with he | he
  · exact (h.minuteOf_lt he).le
  · obtain ⟨-, hruns, heq⟩ := exists_of_mem_runTasks he
    rw [heq, hmeets.inTime e.1 hruns]

/-- **Tasks are executed once in every minute of their patterns exactly if no round lets one
down.** For every list of tasks, every time zone, and every run of the loop: exactly if no
minute of a pattern goes by between two rounds, no pattern of a fixed minute of every hour has
the minute of a round, and what a round executes starts in the minute of the round. -/
theorem firesOnce_iff {trace : List (Cron × (ℕ → ℕ))}
    (hrun : Run (round tasks zone) { now := first } trace s) :
    s.FiresOnce tasks zone first ↔ ∀ e ∈ trace, e.1.Meets tasks zone e.2 := by
  have htimed : ∀ {trace s}, Run (round tasks zone) { now := first } trace s → s.Timed first :=
    fun hrun => hrun.invariant (.start_rounds first) fun h hs => h.step hs
  suffices h : (s.FiresOnce tasks zone first ↔ ∀ e ∈ trace, e.1.Meets tasks zone e.2) ∧
      (s.FiresOnce tasks zone first → s.InTime) from h.1
  induction hrun with
  | nil => exact ⟨iff_of_true (fun _ _ _ _ _ h => nomatch h) nofun, fun _ => nofun⟩
  | snoc hrun hs ih =>
    obtain ⟨hiff, hin⟩ := ih
    have h := htimed hrun
    rw [List.forall_mem_append, List.forall_mem_singleton, ← hiff]
    constructor
    · constructor
      · intro hfires
        have hbefore := hfires.of_round h hs
        exact ⟨hbefore, hfires.meets h (hin hbefore) hs⟩
      · rintro ⟨hbefore, hmeets⟩
        exact hmeets.firesOnce h hbefore hs
    · intro hfires
      have hmeets := hfires.meets h (hin (hfires.of_round h hs)) hs
      exact hmeets.inTime_round h hs

/-- One task that is due in every minute, one at seven minutes past one; the commands take a
second. -/
theorem firesOnce_three_rounds :
    ∃ (trace : List (Cron × (ℕ → ℕ))) (s : Cron),
      Run (round [⟨-1, -1⟩, ⟨7, 1⟩] fun _ => 60) { now := 7 * oneMinute } trace s ∧
        s.previous = some (9 * oneMinute + 3000000000) ∧
        s.FiresOnce [⟨-1, -1⟩, ⟨7, 1⟩] (fun _ => 60) (7 * oneMinute) := by
  have hrun : Run (round [⟨-1, -1⟩, ⟨7, 1⟩] fun _ => 60) { now := 7 * oneMinute } _ _ :=
    Run.nil.snoc (a := fun _ => 1000000000) rfl |>.snoc (a := fun _ => 1000000000) rfl
    |>.snoc (a := fun _ => 1000000000) rfl
  exact ⟨_, _, hrun, by decide, (firesOnce_iff hrun).mpr (by decide)⟩

/-- A task for the fifth minute of every hour is not executed in that minute. A command of two
seconds in the last second of a minute makes the loop miss the next. -/
theorem firesOnce_misses :
    (∃ (trace : List (Cron × (ℕ → ℕ))) (s : Cron),
      Run (round [⟨5, -1⟩] fun _ => 0) { now := 5 * oneMinute } trace s ∧
        s.previous = some (5 * oneMinute) ∧
        ¬ s.FiresOnce [⟨5, -1⟩] (fun _ => 0) (5 * oneMinute)) ∧
    ∃ (trace : List (Cron × (ℕ → ℕ))) (s : Cron),
      Run (round [⟨-1, -1⟩] fun _ => 0) { now := 59000000000 } trace s ∧
        s.previous = some (2 * oneMinute + 1000000000) ∧
        ¬ s.FiresOnce [⟨-1, -1⟩] (fun _ => 0) 59000000000 := by
  constructor
  · have hrun : Run (round [⟨5, -1⟩] fun _ => 0) { now := 5 * oneMinute } _ _ :=
      Run.nil.snoc (a := fun _ => 0) rfl
    refine ⟨_, _, hrun, by decide, fun hfires => ?_⟩
    have hcount := hfires 0 ⟨5, -1⟩ rfl 5 (by decide) ⟨_, rfl, by decide⟩ (by decide)
    exact absurd hcount (by decide)
  · have hrun : Run (round [⟨-1, -1⟩] fun _ => 0) { now := 59000000000 } _ _ :=
      Run.nil.snoc (a := fun _ => 2000000000) rfl |>.snoc (a := fun _ => 0) rfl
    refine ⟨_, _, hrun, by decide, fun hfires => ?_⟩
    have hcount := hfires 0 ⟨-1, -1⟩ rfl 1 (by decide) ⟨_, rfl, by decide⟩ (by decide)
    exact absurd hcount (by decide)

end Cron

end SampleTools
