import Mathlib.Data.List.Basic
import Mathlib.Data.List.Range
import Redbox.Numbers.Double

/-! The charts of `admin-dashboard.service.ts`: one pass over what is recorded, with a cursor that
every bucket takes over from the one before it. -/
namespace Redbox

/-! A cursor that passes the members of a list while they meet a test. -/
namespace Cursor
variable {α : Type} {p : α → Bool} {xs : List α}

def advance (p : α → Bool) (xs : List α) (cursor : Nat) : Nat :=
  if h : cursor < xs.length then
    if p xs[cursor] then advance p xs (cursor + 1) else cursor
  else cursor
termination_by xs.length - cursor

/-- Those that meet the test come first. -/
def Initial (p : α → Bool) (xs : List α) : Prop := xs.Pairwise fun a b => p b → p a

theorem Initial.lt_countP_iff (h : Initial p xs) {i : Nat} (hi : i < xs.length) :
    p xs[i] = true ↔ i < xs.countP p := by
  induction xs generalizing i with
  | nil => simp at hi
  | cons x xs ih =>
    obtain ⟨hx, h⟩ := List.pairwise_cons.mp h
    cases i with
    | zero =>
      rw [List.getElem_cons_zero, List.countP_pos_iff]
      constructor
      · intro hp
        exact ⟨x, List.mem_cons_self, hp⟩
      · rintro ⟨y, hy, hp⟩
        rcases List.mem_cons.mp hy with rfl | hy
        · exact hp
        · exact hx y hy hp
    | succ i =>
      rw [List.getElem_cons_succ, ih h (by simpa using hi), List.countP_cons]
      split
      · omega
      · next hp =>
        have hzero : xs.countP p = 0 := by
          rw [List.countP_eq_zero]
          intro y hy hpy
          exact hp (hx y hy hpy)
        omega

theorem Initial.advance_eq (h : Initial p xs) {cursor : Nat} (hc : cursor ≤ xs.countP p) :
    advance p xs cursor = xs.countP p := by
  induction cursor using advance.induct p xs with
  | case1 cursor hlt hp ih =>
    rw [advance, dif_pos hlt, if_pos hp]
    exact ih ((h.lt_countP_iff hlt).mp hp)
  | case2 cursor hlt hp =>
    rw [advance, dif_pos hlt, if_neg hp]
    have := mt (h.lt_countP_iff hlt).mpr hp
    omega
  | case3 cursor hge =>
    rw [advance, dif_neg hge]
    have := List.countP_le_length (p := p) (l := xs)
    omega

theorem advance_false (xs : List α) (cursor : Nat) :
    advance (fun _ => false) xs cursor = cursor := by
  rw [advance]
  simp

theorem Initial.take_countP (h : Initial p xs) : xs.take (xs.countP p) = xs.filter p := by
  induction xs with
  | nil => rfl
  | cons x xs ih =>
    obtain ⟨hx, h⟩ := List.pairwise_cons.mp h
    by_cases hp : p x
    · simp [hp, ih h]
    · have hnone : ∀ y ∈ xs, ¬ p y := fun y hy hpy => hp (hx y hy hpy)
      simp [hp, List.countP_eq_zero.mpr hnone, List.filter_eq_nil_iff.mpr hnone]

end Cursor

namespace Dashboard

def HOUR_MS : Int := 60 * 60 * 1000

def DAY_MS : Int := 24 * HOUR_MS

/-- The time of a `Date`, none where it is invalid. -/
def timeClip (time : Int) : Option Int :=
  if time.natAbs ≤ 8640000000000000 then some time else none

structure HistoryBucket where
  label : String
  date : Option Int

structure StorageSnapshotPoint where
  recordedAt : Int
  totalUsedBytes : Int

structure HistoryPoint (α : Type) where
  time : String
  value : α

/-- `Math.min(bucket.at.getTime(), now.getTime())` -/
def HistoryBucket.effectiveTime (bucket : HistoryBucket) (now : Int) : Option Int :=
  bucket.date.map (min · now)

/-- A comparison with `NaN` is false. -/
def notLater (bucketTime : Option Int) (time : Int) : Bool := bucketTime.any (time ≤ ·)

def buildCumulativeHistoryFrom (timestamps : List Int) (now : Int) :
    Nat → List HistoryBucket → List (HistoryPoint Nat)
  | _, [] => []
  | cursor, bucket :: buckets =>
    let cursor := Cursor.advance (notLater (bucket.effectiveTime now)) timestamps cursor
    ⟨bucket.label, cursor⟩ :: buildCumulativeHistoryFrom timestamps now cursor buckets

def buildCumulativeHistory (timestamps : List Int) (buckets : List HistoryBucket) (now : Int) :
    List (HistoryPoint Nat) :=
  buildCumulativeHistoryFrom timestamps now 0 buckets

/-- `toFixed(2)`, read as a number again. -/
def toFixed2 (x : ℚ) : ℚ :=
  if x < 0 then -Double.nearest (Double.round (-x * 100) / 100)
  else Double.nearest (Double.round (x * 100) / 100)

def toChartStorageValue (bytes : Int) : ℚ :=
  let gigabytes := Double.nearest (Double.nearest bytes / 1024 ^ 3)
  if |gigabytes| < 10 ^ 21 then toFixed2 gigabytes else gigabytes

def passSnapshots (snapshots : List StorageSnapshotPoint) (effectiveTime : Option Int)
    (cursor : Nat) (lastKnownBytes : Int) : Nat × Int :=
  if h : cursor < snapshots.length then
    if notLater effectiveTime snapshots[cursor].recordedAt then
      passSnapshots snapshots effectiveTime (cursor + 1) snapshots[cursor].totalUsedBytes
    else (cursor, lastKnownBytes)
  else (cursor, lastKnownBytes)
termination_by snapshots.length - cursor

def mapStorageHistoryFrom (snapshots : List StorageSnapshotPoint) (now : Int) :
    Nat → Int → List HistoryBucket → List (HistoryPoint ℚ)
  | _, _, [] => []
  | cursor, lastKnownBytes, bucket :: buckets =>
    let passed := passSnapshots snapshots (bucket.effectiveTime now) cursor lastKnownBytes
    ⟨bucket.label, toChartStorageValue passed.2⟩ ::
      mapStorageHistoryFrom snapshots now passed.1 passed.2 buckets

def mapStorageHistory (snapshots : List StorageSnapshotPoint) (buckets : List HistoryBucket)
    (fallbackBytes : Int) (now : Int) : List (HistoryPoint ℚ) :=
  mapStorageHistoryFrom snapshots now 0 fallbackBytes buckets

/-- What the time zone and the locale of the server decide: the local day of a time, and how a
date is written. -/
structure Locale where
  /-- `setHours(0, 0, 0, 0)` -/
  startOfDay : Int → Option Int
  /-- `setHours(23, 59, 59, 999)` -/
  endOfDay : Int → Option Int
  formatWeekdayLabel : Int → String
  formatDateLabel : Int → Bool → String

namespace Locale
variable (l : Locale)

def build24HourBuckets (now : Int) : List HistoryBucket :=
  [0, 6, 12, 18, 24].map fun hour : Nat =>
    ⟨if hour < 10 then "0" ++ toString hour else toString hour,
      (l.startOfDay now).bind fun start => timeClip (start + hour * HOUR_MS)⟩

/-- The day that ends as many days before the end of today. An invalid date has no label, and the
format throws. -/
def dayBefore (now : Int) (label : Int → String) (offset : Nat) : Option HistoryBucket := do
  let endOfToday ← l.endOfDay now
  let date ← timeClip (endOfToday - offset * DAY_MS)
  pure ⟨label date, some date⟩

def build7DayBuckets (now : Int) : Option (List HistoryBucket) :=
  (List.range 7).mapM fun index => l.dayBefore now l.formatWeekdayLabel (6 - index)

def build30DayBuckets (now : Int) : Option (List HistoryBucket) :=
  [30, 25, 20, 15, 10, 5, 0].mapM fun offset =>
    l.dayBefore now (l.formatDateLabel · false) offset

/-- Each operation rounds. The sum does not have to: it is exact where the date is valid. -/
def totalDate (firstDate now : Int) (points index : Nat) : Option Int :=
  let span := Double.nearest (max (now - firstDate) 0 : Int)
  let ratio := if points = 1 then 1 else Double.nearest (index / (points - 1))
  timeClip (firstDate + Double.round (Double.nearest (span * ratio)))

def buildTotalBuckets (firstDate now : Int) (points : Nat) (includeYear : Bool) :
    Option (List HistoryBucket) :=
  (List.range points).mapM fun index => do
    let date ← totalDate firstDate now points index
    pure ⟨l.formatDateLabel date includeYear, if index + 1 = points then some now else some date⟩

/-- The lists of buckets that the builders give. -/
inductive Built (firstDate now : Int) : List HistoryBucket → Prop where
  | day : Built firstDate now (l.build24HourBuckets now)
  | week {buckets : List HistoryBucket} :
    l.build7DayBuckets now = some buckets → Built firstDate now buckets
  | month {buckets : List HistoryBucket} :
    l.build30DayBuckets now = some buckets → Built firstDate now buckets
  | total {buckets : List HistoryBucket} (points : Nat) (includeYear : Bool) :
    l.buildTotalBuckets firstDate now points includeYear = some buckets →
      Built firstDate now buckets

/-- The buckets whose dates are valid, cut off at the present, never go back. -/
def Ascending (now : Int) (buckets : List HistoryBucket) : Prop :=
  buckets.Pairwise fun a b => ∀ s ∈ a.date, ∀ t ∈ b.date, min s now ≤ min t now

theorem eq_of_mem_timeClip {time t : Int} (h : t ∈ timeClip time) : t = time := by
  unfold timeClip at h
  split at h
  · exact (Option.some.inj h).symm
  · cases h

theorem ascending_day (now : Int) : Ascending now (l.build24HourBuckets now) := by
  have hhours : [0, 6, 12, 18, 24].Pairwise fun a b : Nat => a ≤ b := by decide
  refine List.Pairwise.map _ ?_ hhours
  intro a b hab s hs t ht
  obtain ⟨start, hstart, hs⟩ := Option.bind_eq_some_iff.mp hs
  obtain ⟨start', hstart', ht⟩ := Option.bind_eq_some_iff.mp ht
  obtain rfl := Option.some.inj (hstart.symm.trans hstart')
  rw [eq_of_mem_timeClip hs, eq_of_mem_timeClip ht]
  unfold HOUR_MS
  omega

/-- What holds between the results of any two members of a list holds between two of the list that
they give. -/
theorem pairwise_of_mapM {α β : Type} {f : α → Option β} {R : β → β → Prop} {xs : List α}
    {ys : List β} (h : xs.mapM f = some ys)
    (hR : xs.Pairwise fun a b => ∀ x ∈ f a, ∀ y ∈ f b, R x y) : ys.Pairwise R := by
  have hmem : ∀ {xs : List α} {ys : List β}, xs.mapM f = some ys →
      ∀ y ∈ ys, ∃ x ∈ xs, f x = some y := by
    intro xs
    induction xs with
    | nil =>
      intro ys h y hy
      cases h
      cases hy
    | cons x xs ih =>
      intro ys h y hy
      simp only [List.mapM_cons, Option.bind_eq_bind, Option.bind_eq_some_iff, Option.pure_def,
        Option.some.injEq] at h
      obtain ⟨z, hz, zs, hzs, rfl⟩ := h
      rcases List.mem_cons.mp hy with rfl | hy
      · exact ⟨x, List.mem_cons_self, hz⟩
      · obtain ⟨w, hw, hfw⟩ := ih hzs y hy
        exact ⟨w, List.mem_cons_of_mem _ hw, hfw⟩
  induction xs generalizing ys with
  | nil =>
    cases h
    exact List.Pairwise.nil
  | cons x xs ih =>
    simp only [List.mapM_cons, Option.bind_eq_bind, Option.bind_eq_some_iff, Option.pure_def,
      Option.some.injEq] at h
    obtain ⟨z, hz, zs, hzs, rfl⟩ := h
    obtain ⟨hx, hR⟩ := List.pairwise_cons.mp hR
    refine List.pairwise_cons.mpr ⟨fun y hy => ?_, ih hzs hR⟩
    obtain ⟨w, hw, hfw⟩ := hmem hzs y hy
    exact hx w hw z hz y hfw

theorem mem_dayBefore {now : Int} {label : Int → String} {offset : Nat} {bucket : HistoryBucket}
    (h : l.dayBefore now label offset = some bucket) {t : Int} (ht : t ∈ bucket.date) :
    ∃ endOfToday ∈ l.endOfDay now, t = endOfToday - offset * DAY_MS := by
  simp only [dayBefore, Option.bind_eq_bind, Option.bind_eq_some_iff, Option.pure_def,
    Option.some.injEq] at h
  obtain ⟨endOfToday, hend, date, hdate, rfl⟩ := h
  obtain rfl := Option.some.inj ht
  exact ⟨endOfToday, hend, eq_of_mem_timeClip hdate⟩

/-- An earlier day has a greater offset. -/
theorem ascending_daysBefore {now : Int} {label : Int → String} {offset : Nat → Nat}
    {xs : List Nat} {buckets : List HistoryBucket}
    (h : xs.mapM (fun x => l.dayBefore now label (offset x)) = some buckets)
    (hxs : xs.Pairwise fun a b => offset b ≤ offset a) : Ascending now buckets := by
  apply pairwise_of_mapM h
  refine hxs.imp fun {a b} hab x hx y hy s hs t ht => ?_
  obtain ⟨endOfToday, hend, rfl⟩ := l.mem_dayBefore hx hs
  obtain ⟨endOfToday', hend', rfl⟩ := l.mem_dayBefore hy ht
  obtain rfl := Option.some.inj (hend.symm.trans hend')
  unfold DAY_MS HOUR_MS
  omega

theorem totalDate_mono {firstDate now : Int} {points i j : Nat} (hij : i < j) (hj : j < points)
    {s t : Int} (hs : s ∈ totalDate firstDate now points i)
    (ht : t ∈ totalDate firstDate now points j) : s ≤ t := by
  have hpoints : points ≠ 1 := by omega
  have hspan : 0 ≤ Double.nearest (max (now - firstDate) 0 : Int) :=
    Double.nearest_nonneg (by exact_mod_cast le_max_right _ _)
  have hsteps : (0 : ℚ) ≤ points - 1 := by
    rw [sub_nonneg]
    exact_mod_cast (by omega : 1 ≤ points)
  have hratio : Double.nearest (i / (points - 1)) ≤ Double.nearest (j / (points - 1)) :=
    Double.nearest_mono (div_le_div_of_nonneg_right (by exact_mod_cast hij.le) hsteps)
  have hround := Double.round_mono (Double.nearest_mono (mul_le_mul_of_nonneg_left hratio hspan))
  rw [eq_of_mem_timeClip hs, eq_of_mem_timeClip ht, if_neg hpoints, if_neg hpoints]
  exact Int.add_le_add_left hround firstDate

theorem ascending_total {firstDate now : Int} {points : Nat} {includeYear : Bool}
    {buckets : List HistoryBucket}
    (h : l.buildTotalBuckets firstDate now points includeYear = some buckets) :
    Ascending now buckets := by
  apply pairwise_of_mapM h
  have hrange : (List.range points).Pairwise fun i j => i < j ∧ j < points :=
    List.pairwise_lt_range.imp_of_mem fun _ hj hij => ⟨hij, List.mem_range.mp hj⟩
  refine hrange.imp fun {i j} hij x hx y hy s hs t ht => ?_
  simp only [Option.mem_def, Option.bind_eq_bind, Option.bind_eq_some_iff, Option.pure_def,
    Option.some.injEq] at hx hy
  obtain ⟨date, hdate, rfl⟩ := hx
  obtain ⟨date', hdate', rfl⟩ := hy
  simp only [if_neg (show i + 1 ≠ points by omega)] at hs
  obtain rfl := Option.some.inj hs
  -- the last bucket is the present, which no other one exceeds once it is cut off
  split at ht
  · obtain rfl := Option.some.inj ht
    omega
  · obtain rfl := Option.some.inj ht
    have := totalDate_mono hij.1 hij.2 hdate hdate'
    omega

theorem Built.ascending {firstDate now : Int} {buckets : List HistoryBucket}
    (h : l.Built firstDate now buckets) : Ascending now buckets := by
  cases h with
  | day => exact l.ascending_day now
  | week h => exact l.ascending_daysBefore h (by decide)
  | month h => exact l.ascending_daysBefore h (by decide)
  | total points includeYear h => exact l.ascending_total h

end Locale

theorem HistoryBucket.effectiveTime_some {bucket : HistoryBucket} {t : Int} (h : t ∈ bucket.date)
    (now : Int) : bucket.effectiveTime now = some (min t now) := by
  rw [effectiveTime, Option.mem_def.mp h, Option.map_some]

theorem notLater_none : notLater none = fun _ => false := rfl

theorem notLater_some (t : Int) : notLater (some t) = fun time => decide (time ≤ t) := rfl

section Charts
open Cursor (Initial)
variable {timestamps : List Int}

theorem initial_notLater (h : timestamps.Pairwise (· ≤ ·)) (t : Int) :
    Initial (notLater (some t)) timestamps := by
  refine h.imp fun {a b} hab hb => ?_
  rw [notLater_some, decide_eq_true_eq] at hb ⊢
  omega

theorem countP_mono {s t : Int} (h : s ≤ t) (timestamps : List Int) :
    timestamps.countP (notLater (some s)) ≤ timestamps.countP (notLater (some t)) := by
  apply List.countP_mono_left
  intro a _ ha
  rw [notLater_some, decide_eq_true_eq] at ha ⊢
  omega

/-- Where the cursor may stand before the buckets: not beyond what any of them counts. -/
def Behind (timestamps : List Int) (now : Int) (cursor : Nat) (buckets : List HistoryBucket) :
    Prop :=
  ∀ bucket ∈ buckets, ∀ t ∈ bucket.date,
    cursor ≤ timestamps.countP (notLater (some (min t now)))

/-- A bucket moves the cursor to what it counts, or not at all if it has no date. -/
theorem Behind.pass {now : Int} {cursor : Nat} {bucket : HistoryBucket}
    {buckets : List HistoryBucket} (h : Behind timestamps now cursor (bucket :: buckets))
    (hsorted : timestamps.Pairwise (· ≤ ·)) (ha : Locale.Ascending now (bucket :: buckets)) :
    (∀ t ∈ bucket.date, Cursor.advance (notLater (bucket.effectiveTime now)) timestamps cursor =
      timestamps.countP (notLater (some (min t now)))) ∧
    Behind timestamps now (Cursor.advance (notLater (bucket.effectiveTime now)) timestamps cursor)
      buckets := by
  have hcount : ∀ t ∈ bucket.date, Cursor.advance (notLater (bucket.effectiveTime now)) timestamps
      cursor = timestamps.countP (notLater (some (min t now))) := by
    intro t ht
    rw [bucket.effectiveTime_some ht]
    exact (initial_notLater hsorted _).advance_eq (h bucket List.mem_cons_self t ht)
  refine ⟨hcount, fun bucket' hb' t ht => ?_⟩
  cases hdate : bucket.date with
  | none =>
    rw [HistoryBucket.effectiveTime, hdate, Option.map_none, notLater_none, Cursor.advance_false]
    exact h bucket' (List.mem_cons_of_mem _ hb') t ht
  | some s =>
    rw [hcount s hdate]
    exact countP_mono ((List.pairwise_cons.mp ha).1 bucket' hb' s hdate t ht) timestamps

/-- A point has the label of its bucket and counts what is not later than it. -/
def Counts (timestamps : List Int) (now : Int) (bucket : HistoryBucket) (point : HistoryPoint Nat) :
    Prop :=
  point.time = bucket.label ∧
    ∀ t ∈ bucket.date, point.value = timestamps.countP fun time => decide (time ≤ min t now)

theorem buildCumulativeHistoryFrom_counts (hsorted : timestamps.Pairwise (· ≤ ·)) {now : Int}
    {cursor : Nat} {buckets : List HistoryBucket} (h : Behind timestamps now cursor buckets)
    (ha : Locale.Ascending now buckets) :
    List.Forall₂ (Counts timestamps now) buckets
      (buildCumulativeHistoryFrom timestamps now cursor buckets) := by
  induction buckets generalizing cursor with
  | nil => exact List.Forall₂.nil
  | cons bucket buckets ih =>
    obtain ⟨hcount, hbehind⟩ := h.pass hsorted ha
    exact List.Forall₂.cons ⟨rfl, hcount⟩ (ih hbehind (List.pairwise_cons.mp ha).2)

/-- The bytes at the last snapshot that the cursor has passed. -/
def lastKnown (snapshots : List StorageSnapshotPoint) (fallbackBytes : Int) (cursor : Nat) : Int :=
  (snapshots.take cursor).getLast?.elim fallbackBytes StorageSnapshotPoint.totalUsedBytes

theorem passSnapshots_eq (snapshots : List StorageSnapshotPoint) (fallbackBytes : Int)
    (effectiveTime : Option Int) (cursor : Nat) :
    passSnapshots snapshots effectiveTime cursor (lastKnown snapshots fallbackBytes cursor) =
      (Cursor.advance (notLater effectiveTime) (snapshots.map StorageSnapshotPoint.recordedAt)
        cursor,
        lastKnown snapshots fallbackBytes
          (Cursor.advance (notLater effectiveTime) (snapshots.map StorageSnapshotPoint.recordedAt)
            cursor)) := by
  induction hn : snapshots.length - cursor generalizing cursor with
  | zero =>
    have hge : ¬ cursor < snapshots.length := by omega
    rw [passSnapshots, dif_neg hge, Cursor.advance, dif_neg (by simpa using hge)]
  | succ n ih =>
    have hlt : cursor < snapshots.length := by omega
    rw [passSnapshots, dif_pos hlt, Cursor.advance, dif_pos (by simpa using hlt), List.getElem_map]
    split
    · have hnext : snapshots[cursor].totalUsedBytes =
          lastKnown snapshots fallbackBytes (cursor + 1) := by
        rw [lastKnown, List.take_add_one, List.getElem?_eq_getElem hlt, Option.toList_some,
          List.getLast?_concat, Option.elim_some]
      rw [hnext]
      exact ih (cursor + 1) (by omega)
    · rfl

/-- A point has the label of its bucket and the bytes of the last snapshot that is not later. -/
def LastOf (snapshots : List StorageSnapshotPoint) (fallbackBytes now : Int)
    (bucket : HistoryBucket) (point : HistoryPoint ℚ) : Prop :=
  point.time = bucket.label ∧ ∀ t ∈ bucket.date, point.value = toChartStorageValue
    ((snapshots.filter fun s => decide (s.recordedAt ≤ min t now)).getLast?.elim fallbackBytes
      StorageSnapshotPoint.totalUsedBytes)

theorem lastKnown_countP {snapshots : List StorageSnapshotPoint}
    (hsorted : (snapshots.map StorageSnapshotPoint.recordedAt).Pairwise (· ≤ ·))
    (fallbackBytes t : Int) :
    lastKnown snapshots fallbackBytes
        ((snapshots.map StorageSnapshotPoint.recordedAt).countP (notLater (some t))) =
      (snapshots.filter fun s => decide (s.recordedAt ≤ t)).getLast?.elim fallbackBytes
        StorageSnapshotPoint.totalUsedBytes := by
  have hinitial : Initial (fun s : StorageSnapshotPoint => decide (s.recordedAt ≤ t)) snapshots :=
    List.pairwise_map.mp (initial_notLater hsorted t)
  rw [lastKnown, List.countP_map]
  exact congrArg (fun xs => xs.getLast?.elim fallbackBytes StorageSnapshotPoint.totalUsedBytes)
    hinitial.take_countP

theorem mapStorageHistoryFrom_lastOf {snapshots : List StorageSnapshotPoint}
    (hsorted : (snapshots.map StorageSnapshotPoint.recordedAt).Pairwise (· ≤ ·))
    (fallbackBytes : Int) {now : Int} {cursor : Nat} {buckets : List HistoryBucket}
    (h : Behind (snapshots.map StorageSnapshotPoint.recordedAt) now cursor buckets)
    (ha : Locale.Ascending now buckets) :
    List.Forall₂ (LastOf snapshots fallbackBytes now) buckets (mapStorageHistoryFrom snapshots now
      cursor (lastKnown snapshots fallbackBytes cursor) buckets) := by
  induction buckets generalizing cursor with
  | nil => exact List.Forall₂.nil
  | cons bucket buckets ih =>
    obtain ⟨hcount, hbehind⟩ := h.pass hsorted ha
    rw [mapStorageHistoryFrom, passSnapshots_eq]
    refine List.Forall₂.cons ⟨rfl, fun t ht => ?_⟩ (ih hbehind (List.pairwise_cons.mp ha).2)
    rw [hcount t ht, lastKnown_countP hsorted]

end Charts

/-- Both charts are what they are defined to be, over the buckets of any of the builders. -/
theorem histories_exact (l : Locale) (timestamps : List Int) (ht : timestamps.Pairwise (· ≤ ·))
    (snapshots : List StorageSnapshotPoint)
    (hs : (snapshots.map StorageSnapshotPoint.recordedAt).Pairwise (· ≤ ·))
    (fallbackBytes firstDate now : Int) {buckets : List HistoryBucket}
    (hb : l.Built firstDate now buckets) :
    List.Forall₂ (Counts timestamps now) buckets (buildCumulativeHistory timestamps buckets now) ∧
    List.Forall₂ (LastOf snapshots fallbackBytes now) buckets
      (mapStorageHistory snapshots buckets fallbackBytes now) := by
  have ha := hb.ascending
  constructor
  · exact buildCumulativeHistoryFrom_counts ht (fun _ _ _ _ => Nat.zero_le _) ha
  · exact mapStorageHistoryFrom_lastOf hs fallbackBytes (fun _ _ _ _ => Nat.zero_le _) ha

/-- A clock at UTC: an hour after the second of three registrations the last has not happened. -/
theorem histories_exact_day :
    let l : Locale := ⟨fun now => timeClip (now - now % DAY_MS),
      fun now => timeClip (now - now % DAY_MS + DAY_MS - 1), fun _ => "", fun _ _ => ""⟩
    let now : Int := 1767225600000 + 13 * HOUR_MS
    let timestamps := [1767225600000 - DAY_MS, 1767225600000 + 12 * HOUR_MS, now + 1]
    let snapshots : List StorageSnapshotPoint := [⟨1767225600000 + 7 * HOUR_MS, 5 * 1024 ^ 3⟩]
    List.Forall₂ (Counts timestamps now) (l.build24HourBuckets now)
        (buildCumulativeHistory timestamps (l.build24HourBuckets now) now) ∧
      List.Forall₂ (LastOf snapshots 0 now) (l.build24HourBuckets now)
        (mapStorageHistory snapshots (l.build24HourBuckets now) 0 now) ∧
      (buildCumulativeHistory timestamps (l.build24HourBuckets now) now).map HistoryPoint.value =
        [1, 1, 2, 2, 2] := by
  intro l now timestamps snapshots
  have h := histories_exact l timestamps (by decide) snapshots (by decide) 0 1767225600000 now .day
  exact ⟨h.1, h.2, by decide +kernel⟩

end Dashboard
end Redbox
