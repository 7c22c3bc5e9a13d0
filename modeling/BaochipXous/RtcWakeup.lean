import Mathlib.Tactic

/-!
The wakeup alarm of the real time clock. The counter runs at 1024 Hz in 32 bits; the service counts
its rollovers and adds an offset, which makes the UTC clock. An alarm is given in UTC and has to
come out as the value of the counter at which that clock reaches it.
-/

namespace BaochipXous.Rtc

/-- Wrapping to the 64-bit integers the service computes with. -/
def i64 (x : Int) : Int := (x + 2 ^ 63) % 2 ^ 64 - 2 ^ 63

theorem i64_eq_self {x : Int} (hlo : -2 ^ 63 ≤ x) (hhi : x < 2 ^ 63) : i64 x = x := by
  unfold i64; omega

def rtcCodeToMs (rtcCode rollovers : Nat) : Int :=
  (i64 (i64 (rtcCode + rollovers * 2 ^ 32) * 1000)).tdiv 1024

/-- The alarm time in counter ticks, as if the counter had been zero at UTC zero. -/
def alarmTicks (ms : Int) : Int := (i64 (ms * 1024)).tdiv 1000

def msToRtcCode (ms : Int) : Option (Nat × Nat) :=
  if ms < 0 then none
  else
    let codes := alarmTicks ms
    some ((codes % 2 ^ 32).toNat, (codes / 2 ^ 32 % 2 ^ 32).toNat)

/-- What the service knows of the time, with the counter as it was read for this message. -/
structure Clock where
  rtcVal : Nat
  rtcRollovers : Nat
  utcOffsetMs : Int
  rtcVal_lt : rtcVal < 2 ^ 32

/-- The two words of a message as a time. -/
def timeArg (hi lo : Nat) : Int := i64 (hi * 2 ^ 32 + lo)

variable (c : Clock)

def Clock.setUtcTimeMs (hi lo : Nat) : Clock :=
  { c with utcOffsetMs := i64 (timeArg hi lo - rtcCodeToMs c.rtcVal c.rtcRollovers) }

/-- The match register and the interrupt mask. -/
structure Alarm where
  mr : Nat
  imsc : Nat
  deriving DecidableEq, Repr

/-- The alarm is at most two seconds ahead in the unsigned 32-bit difference of the counter values. -/
def tooClose (rtcCode rtcVal : Nat) : Bool := (rtcCode + 2 ^ 32 - rtcVal) % 2 ^ 32 ≤ 2048

/-- Arming the counter for a place in one of the first two periods; `none` is a failed assertion. -/
def armAt (a : Alarm) (rtcCode rollovers : Nat) : Option (Alarm × Nat) :=
  if tooClose rtcCode c.rtcVal then none
  else if rollovers = 0 then some (⟨rtcCode, 1⟩, 0)
  else if rollovers = 1 then some (⟨rtcCode, 1⟩, 1)
  else some (a, rollovers)

/-- The alarm registers after the message and the count it returns. -/
def setWakeup (a : Alarm) (hi lo : Nat) : Option (Alarm × Nat) :=
  (msToRtcCode (timeArg hi lo)).bind fun x => armAt c { a with imsc := 0 } x.1 x.2

/-- Ticks since the counter was first zero. -/
def Clock.now : Nat := c.rtcRollovers * 2 ^ 32 + c.rtcVal

/-- What `GetUtcTimeMs` reports when `n` ticks have passed in all. -/
def Clock.utcAt (n : Nat) : Int :=
  i64 (c.utcOffsetMs + rtcCodeToMs (n % 2 ^ 32) (n / 2 ^ 32))

variable (alarm : Int)

/-- The reported clock first reaches the alarm time at tick `n`. -/
structure Due (n : Nat) : Prop where
  later : c.now ≤ n
  reached : alarm ≤ c.utcAt n
  first : ∀ m, c.now ≤ m → m < n → c.utcAt m < alarm

/-- The alarm is less than one counter period ahead. -/
def Clock.Near (n : Nat) : Prop := n < c.now + 2 ^ 32

/-- Two counter values are the same but for one tick. -/
def WithinTick (x y : Int) : Prop := (y + 1 - x) % 2 ^ 32 ≤ 2

/-- The message arms the counter for the tick at which the alarm is due, or hands back the number of
rollovers until then. -/
def Wakes (a : Alarm) (hi lo : Nat) : Prop :=
  ∃ a' count, setWakeup c a hi lo = some (a', count) ∧ ∀ n, Due c (timeArg hi lo) n →
    (c.Near n → a'.imsc = 1 ∧ WithinTick a'.mr n) ∧
    (¬ c.Near n → a'.imsc = 0 ∧ (count : Int) = n / 2 ^ 32 - c.rtcRollovers)

/-- No product of the conversions overflows, and the alarm is more than two seconds after the time
that is reported. -/
structure Clock.Expects : Prop where
  now_lt : c.now < 2 ^ 52
  offset_ge : -2 ^ 52 ≤ c.utcOffsetMs
  offset_lt : c.utcOffsetMs < 2 ^ 52
  alarm_lt : alarm < 2 ^ 52
  later : c.utcAt c.now + 2000 < alarm

/-- A period of the counter in milliseconds, times 1024. -/
def period : Int := 1000 * 2 ^ 32

/-- When the offset does no harm. Near, it is a whole number of periods but for the rounding, and the
alarm lies in the first two periods from UTC zero; far, the alarm lies in a later one, and from UTC
zero there are as many periods to it as the counter has still to pass. -/
structure Fits : Prop where
  positive : 0 ≤ alarm
  ahead : 2048 < (alarm * 1024 / 1000 - c.rtcVal) % 2 ^ 32
  near : (alarm - c.utcOffsetMs) * 1024 ≤ (c.now + 2 ^ 32 - 1) * 1000 → alarm * 1024 < 2 * period ∧
    (c.utcOffsetMs * 1024 - alarm * 1024 % 1000 + 1000) % period < 3000
  far : (c.now + 2 ^ 32 - 1) * 1000 < (alarm - c.utcOffsetMs) * 1024 → 2 * period ≤ alarm * 1024 ∧
    ((alarm - c.utcOffsetMs) * 1024 + 999) / period - c.rtcRollovers = alarm * 1024 / period

/-- Rounded down from UTC zero and up with the offset, the alarm is the same within a tick just when
the offset is a whole number of periods but for the rounding. -/
theorem withinTick_iff (alarm offset : Int) :
    WithinTick (alarm * 1024 / 1000) (((alarm - offset) * 1024 + 999) / 1000) ↔
      (offset * 1024 - alarm * 1024 % 1000 + 1000) % period < 3000 := by
  have hticks : ((alarm - offset) * 1024 + 999) / 1000 + 1 - alarm * 1024 / 1000 =
      2 - (offset * 1024 - alarm * 1024 % 1000 + 1000) / 1000 := by omega
  rw [WithinTick, hticks, period]
  generalize offset * 1024 - alarm * 1024 % 1000 + 1000 = x
  have hdiv : x / (1000 * 2 ^ 32) = x / 1000 / 2 ^ 32 := (Int.ediv_ediv_of_nonneg (by decide)).symm
  have hmod : x % (1000 * 2 ^ 32) = x % 1000 + 1000 * (x / 1000 % 2 ^ 32) := by
    rw [Int.emod_def x (1000 * 2 ^ 32), hdiv]
    omega
  rw [hmod]
  omega

theorem alarmTicks_eq {ms : Int} (hpos : 0 ≤ ms) (hlt : ms < 2 ^ 52) : alarmTicks ms = ms * 1024 / 1000 := by
  rw [alarmTicks, i64_eq_self (by omega) (by omega), Int.tdiv_eq_ediv_of_nonneg (by omega)]

theorem tooClose_iff (k : Int) :
    tooClose (k % 2 ^ 32).toNat c.rtcVal = true ↔ (k - c.rtcVal) % 2 ^ 32 ≤ 2048 := by
  have hval := c.rtcVal_lt
  rw [tooClose, decide_eq_true_iff]
  omega

theorem setWakeup_none {c : Clock} {a : Alarm} {hi lo : Nat}
    (h : timeArg hi lo < 0 ∨ (alarmTicks (timeArg hi lo) - c.rtcVal) % 2 ^ 32 ≤ 2048) :
    setWakeup c a hi lo = none := by
  rw [setWakeup, msToRtcCode]
  by_cases hneg : timeArg hi lo < 0
  · rw [if_pos hneg, Option.bind_none]
  · have hclose := (tooClose_iff c _).mpr (h.resolve_left hneg)
    rw [if_neg hneg, Option.bind_some, armAt, if_pos hclose]

theorem setWakeup_some {c : Clock} {a : Alarm} {hi lo : Nat} (hpos : ¬ timeArg hi lo < 0)
    (hlead : ¬ (alarmTicks (timeArg hi lo) - c.rtcVal) % 2 ^ 32 ≤ 2048) :
    ∃ mr count : Nat, (mr : Int) = alarmTicks (timeArg hi lo) % 2 ^ 32 ∧
      (count : Int) = alarmTicks (timeArg hi lo) / 2 ^ 32 % 2 ^ 32 ∧
      setWakeup c a hi lo = some (if count < 2 then ⟨mr, 1⟩ else { a with imsc := 0 }, count) := by
  have hclose := mt (tooClose_iff c _).mp hlead
  refine ⟨_, _, Int.toNat_of_nonneg (by omega), Int.toNat_of_nonneg (by omega), ?_⟩
  rw [setWakeup, msToRtcCode, if_neg hpos, Option.bind_some, armAt, if_neg hclose]
  generalize (alarmTicks (timeArg hi lo) / 2 ^ 32 % 2 ^ 32).toNat = count
  rcases count with _ | _ | count
  · rw [if_pos rfl, if_pos Nat.two_pos]
  · rw [if_neg (by omega), if_pos rfl, if_pos Nat.one_lt_two]
  · rw [if_neg (by omega), if_neg (by omega), if_neg (by omega)]

/-- As long as nothing overflows the reported clock is the offset and the ticks in milliseconds. -/
theorem Clock.utcAt_eq {n : Nat} (hoff : -2 ^ 52 ≤ c.utcOffsetMs)
    (hoff' : c.utcOffsetMs < 2 ^ 52) (hn : n * 1000 < 2 ^ 63) :
    c.utcAt n = c.utcOffsetMs + n * 1000 / 1024 := by
  have hsum : ((n % 2 ^ 32 : Nat) + (n / 2 ^ 32 : Nat) * 2 ^ 32 : Int) = n := by omega
  have hms : rtcCodeToMs (n % 2 ^ 32) (n / 2 ^ 32) = n * 1000 / 1024 := by
    unfold rtcCodeToMs
    rw [hsum, i64_eq_self (x := n) (by omega) (by omega), i64_eq_self (by omega) (by omega),
      Int.tdiv_eq_ediv_of_nonneg (by omega)]
  rw [utcAt, hms, i64_eq_self (by omega) (by omega)]

/-- The tick at which the offset clock reaches the alarm, found by rounding up. -/
def Clock.dueTick : Nat := (((alarm - c.utcOffsetMs) * 1024 + 999) / 1000).toNat

section

variable {c : Clock} {alarm : Int} (h : c.Expects alarm)
include h

theorem Clock.Expects.dueTick_eq : (c.dueTick alarm : Int) = ((alarm - c.utcOffsetMs) * 1024 + 999) / 1000 ∧
    c.now ≤ c.dueTick alarm ∧ c.dueTick alarm * 1000 < 2 ^ 63 := by
  obtain ⟨hnow, hoff, hoff', halarm, hlater⟩ := h
  rw [dueTick]
  generalize c.now = now at hnow hlater ⊢
  have hmul : now * 1000 < 2 ^ 63 := by
    clear hlater
    omega
  rw [c.utcAt_eq hoff hoff' hmul] at hlater
  omega

theorem Clock.Expects.due_iff {n : Nat} : Due c alarm n ↔ n = c.dueTick alarm := by
  obtain ⟨hdue, hnow, hlt⟩ := h.dueTick_eq
  have hutc : ∀ m ≤ c.dueTick alarm, c.utcAt m = c.utcOffsetMs + m * 1000 / 1024 := fun m hm =>
    c.utcAt_eq h.offset_ge h.offset_lt ((Nat.mul_le_mul_right 1000 hm).trans_lt hlt)
  have hreached : alarm ≤ c.utcAt (c.dueTick alarm) := by
    rw [hutc _ le_rfl]
    omega
  have hfirst : ∀ m < c.dueTick alarm, c.utcAt m < alarm := fun m hm => by
    rw [hutc m hm.le]
    omega
  constructor
  · rintro ⟨hlater, hreach, hall⟩
    apply le_antisymm
    · by_contra hgt
      exact absurd hreached (not_le.mpr (hall _ hnow (not_le.mp hgt)))
    · by_contra hgt
      exact absurd hreach (not_le.mpr (hfirst n (not_le.mp hgt)))
  · rintro rfl
    exact ⟨hnow, hreached, fun m _ hm => hfirst m hm⟩

theorem Clock.Expects.near_iff : c.Near (c.dueTick alarm) ↔
    (alarm - c.utcOffsetMs) * 1024 ≤ (c.now + 2 ^ 32 - 1) * 1000 := by
  obtain ⟨hdue, hnow, -⟩ := h.dueTick_eq
  unfold Clock.Near
  generalize c.now = now at hnow ⊢
  clear h
  omega

theorem Clock.Expects.periods_eq (hpos : 0 ≤ alarm) :
    alarmTicks alarm / 2 ^ 32 % 2 ^ 32 = alarm * 1024 / period := by
  have hlt := h.alarm_lt
  have hdiv : alarm * 1024 / 1000 / 2 ^ 32 = alarm * 1024 / period := Int.ediv_ediv_of_nonneg (by decide)
  clear h
  rw [alarmTicks_eq hpos hlt, hdiv, period, Int.emod_eq_of_lt] <;> omega

theorem Clock.Expects.within_iff (hpos : 0 ≤ alarm) :
    WithinTick (alarmTicks alarm % 2 ^ 32) (c.dueTick alarm) ↔
      (c.utcOffsetMs * 1024 - alarm * 1024 % 1000 + 1000) % period < 3000 := by
  rw [← withinTick_iff, ← h.dueTick_eq.1, ← alarmTicks_eq hpos h.alarm_lt, WithinTick, WithinTick,
    Int.sub_emod_emod]

end

/-- A message wakes the system on time just when the offset does no harm. -/
theorem wakes_iff_fits {c : Clock} (a : Alarm) {hi lo : Nat} (h : c.Expects (timeArg hi lo)) :
    Wakes c a hi lo ↔ Fits c (timeArg hi lo) := by
  by_cases hneg : timeArg hi lo < 0
  · refine iff_of_false ?_ fun hfit => absurd hfit.positive (not_le.mpr hneg)
    rintro ⟨a', count, hset, -⟩
    rw [setWakeup_none (.inl hneg)] at hset
    cases hset
  have hpos := not_lt.mp hneg
  have hticks := alarmTicks_eq hpos h.alarm_lt
  by_cases hlead : (alarmTicks (timeArg hi lo) - c.rtcVal) % 2 ^ 32 ≤ 2048
  · refine iff_of_false ?_ fun hfit => absurd hfit.ahead (not_lt.mpr (hticks ▸ hlead))
    rintro ⟨a', count, hset, -⟩
    rw [setWakeup_none (.inr hlead)] at hset
    cases hset
  obtain ⟨mr, count, hmr, hcount, hset⟩ := setWakeup_some (a := a) hneg hlead
  have hnear := h.near_iff
  have hwithin := h.within_iff hpos
  rw [← hmr] at hwithin
  rw [h.periods_eq hpos] at hcount
  have hfirst : count < 2 ↔ timeArg hi lo * 1024 < 2 * period := by
    rw [← Int.ofNat_lt, hcount]
    exact Int.ediv_lt_iff_lt_mul (by decide)
  have hrollovers : (count : Int) = c.dueTick (timeArg hi lo) / 2 ^ 32 - c.rtcRollovers ↔
      ((timeArg hi lo - c.utcOffsetMs) * 1024 + 999) / period - c.rtcRollovers = timeArg hi lo * 1024 / period := by
    rw [hcount, h.dueTick_eq.1, Int.ediv_ediv_of_nonneg (by decide), eq_comm]
    rfl
  constructor
  · rintro ⟨a', count', hset', hwakes⟩
    cases hset ▸ hset'
    obtain ⟨hclose, hfar⟩ := hwakes _ (h.due_iff.mpr rfl)
    refine ⟨not_lt.mp hneg, hticks ▸ not_le.mp hlead, fun hle => ?_, fun hlt => ?_⟩
    · obtain ⟨himsc, htick⟩ := hclose (hnear.mpr hle)
      by_cases h2 : count < 2
      · rw [if_pos h2] at htick
        exact ⟨hfirst.mp h2, hwithin.mp htick⟩
      · rw [if_neg h2] at himsc
        cases himsc
    · obtain ⟨himsc, hcount'⟩ := hfar (mt hnear.mp (not_le.mpr hlt))
      by_cases h2 : count < 2
      · rw [if_pos h2] at himsc
        cases himsc
      · exact ⟨not_lt.mp (mt hfirst.mpr h2), hrollovers.mp hcount'⟩
  · intro hfit
    refine ⟨_, _, hset, fun n hn => ?_⟩
    rw [h.due_iff.mp hn]
    constructor
    · intro hclose
      obtain ⟨h2, htick⟩ := hfit.near (hnear.mp hclose)
      rw [if_pos (hfirst.mpr h2)]
      exact ⟨rfl, hwithin.mpr htick⟩
    · intro hfar
      obtain ⟨h2, hsame⟩ := hfit.far (not_le.mp (mt hnear.mpr hfar))
      rw [if_neg (mt hfirst.mp (not_lt.mpr h2))]
      exact ⟨rfl, hrollovers.mpr hsame⟩

/-- A clock that was set back by three periods after as many rollovers. -/
def setBack : Clock := ⟨1024, 3, -12582912000, by decide⟩

theorem setBack_expects {alarm : Int} (hlo : 3000 < alarm) (hhi : alarm < 2 ^ 52) : setBack.Expects alarm := by
  have hutc : setBack.utcAt setBack.now = 1000 := by decide
  exact ⟨by decide, by decide, by decide, hhi, by rw [hutc]; exact hlo⟩

/-- The counter is armed for an alarm in an hour; four periods later the count is handed back. -/
theorem wakes_setBack : Wakes setBack ⟨0, 0⟩ 0 3600000 ∧ Wakes setBack ⟨0, 0⟩ 3 3895914112 :=
  ⟨(wakes_iff_fits _ (setBack_expects (by decide) (by decide))).mpr
      ⟨by decide, by decide, by decide, by decide⟩,
    (wakes_iff_fits _ (setBack_expects (by decide) (by decide))).mpr
      ⟨by decide, by decide, by decide, by decide⟩⟩

/-- With the time set to the first hour of 2026, an alarm one hour later is not armed: the periods
since 1970 are taken for rollovers still to come. -/
theorem not_wakes_hour :
    ∃ (c : Clock) (hi lo n : Nat), c = (⟨0, 0, 0, by decide⟩ : Clock).setUtcTimeMs 411 1994041344 ∧
      c.utcAt c.now + 2000 < timeArg hi lo ∧ Due c (timeArg hi lo) n ∧ c.Near n ∧
      ¬ Wakes c ⟨0, 0⟩ hi lo := by
  set c := (⟨0, 0, 0, by decide⟩ : Clock).setUtcTimeMs 411 1994041344 with hc
  have hoff : c.utcOffsetMs = 1767225600000 := by decide
  have hnow : c.now = 0 := by decide
  have halarm : timeArg 411 1997641344 = 1767229200000 := by decide
  have hutc : c.utcAt c.now = 1767225600000 := by decide
  have hexpects : c.Expects (timeArg 411 1997641344) := by
    rw [halarm]
    exact ⟨by rw [hnow]; decide, by rw [hoff]; decide, by rw [hoff]; decide, by decide, by rw [hutc]; decide⟩
  have hdue : Due c (timeArg 411 1997641344) 3686400 := by
    rw [hexpects.due_iff, Clock.dueTick, hoff, halarm]
    decide
  refine ⟨c, 411, 1997641344, 3686400, rfl, ?_, hdue, ?_, ?_⟩
  · rw [hutc, halarm]
    decide
  · unfold Clock.Near
    omega
  · rintro ⟨a', count, hset, hwakes⟩
    have hidle : setWakeup c ⟨0, 0⟩ 411 1997641344 = some (⟨0, 0⟩, 421) := by decide
    rw [hidle] at hset
    cases hset
    exact absurd ((hwakes _ hdue).1 (by unfold Clock.Near; omega)).1 (by decide)

/-- Two days, in milliseconds. -/
def tzLimit : Int := 86400 * 1000 * 2

/-- The service with the offset of the time zone. The offsets are ones that the messages can set. -/
structure TimeServer extends Clock where
  tzOffsetMs : Int
  utc_i64 : i64 utcOffsetMs = utcOffsetMs
  tz_bounds : -tzLimit ≤ tzOffsetMs ∧ tzOffsetMs ≤ tzLimit

namespace TimeServer

variable (s t : TimeServer)

/-- The four words of the answer. The mask of the first has a digit too many, but a word has 32 bits. -/
def getState : Nat × Nat × Nat × Nat :=
  ((s.utcOffsetMs % 2 ^ 36).toNat % 2 ^ 32, (s.utcOffsetMs / 2 ^ 32 % 2 ^ 32).toNat,
    (s.tzOffsetMs % 2 ^ 32).toNat, (s.tzOffsetMs / 2 ^ 32 % 2 ^ 32).toNat)

def setUtcTimeMs (hi lo : Nat) : TimeServer :=
  { s with toClock := s.toClock.setUtcTimeMs hi lo, utc_i64 := by simp only [Clock.setUtcTimeMs, i64]; omega }

/-- An offset of more than two days is ignored. -/
def setTzOffsetMs (hi lo : Nat) : TimeServer :=
  if h : timeArg hi lo < -tzLimit ∨ tzLimit < timeArg hi lo then s
  else { s with tzOffsetMs := timeArg hi lo, tz_bounds := by omega }

/-- The words of `GetState` are sent to a server, in the order in which they were answered. -/
def restore : TimeServer :=
  (t.setUtcTimeMs s.getState.1 s.getState.2.1).setTzOffsetMs s.getState.2.2.1 s.getState.2.2.2

theorem getState_words :
    ((s.getState.1 : Int) = s.utcOffsetMs % 2 ^ 32 ∧ (s.getState.2.1 : Int) = s.utcOffsetMs / 2 ^ 32 % 2 ^ 32) ∧
    (s.getState.2.2.1 : Int) = s.tzOffsetMs % 2 ^ 32 ∧ (s.getState.2.2.2 : Int) = s.tzOffsetMs / 2 ^ 32 % 2 ^ 32 := by
  simp only [getState]
  omega

theorem setUtcTimeMs_tzOffsetMs (hi lo : Nat) : (s.setUtcTimeMs hi lo).tzOffsetMs = s.tzOffsetMs := by
  -- over any clock: the one computed is too deep to unfold
  have htz : ∀ c hc, (mk c s.tzOffsetMs hc s.tz_bounds).tzOffsetMs = s.tzOffsetMs := fun _ _ => rfl
  exact htz _ _

theorem setTzOffsetMs_utcOffsetMs (hi lo : Nat) : (s.setTzOffsetMs hi lo).utcOffsetMs = s.utcOffsetMs := by
  unfold setTzOffsetMs
  split <;> rfl

theorem setTzOffsetMs_tzOffsetMs (hi lo : Nat) : (s.setTzOffsetMs hi lo).tzOffsetMs =
    if timeArg hi lo < -tzLimit ∨ tzLimit < timeArg hi lo then s.tzOffsetMs else timeArg hi lo := by
  by_cases h : timeArg hi lo < -tzLimit ∨ tzLimit < timeArg hi lo
  · rw [setTzOffsetMs, dif_pos h, if_pos h]
  · rw [setTzOffsetMs, dif_neg h, if_neg h]

/-- The answer has the low words first and the messages take the high ones first; `SetUtcTimeMs`
takes a time and not an offset. -/
theorem restores_offsets_iff :
    ((s.restore t).utcOffsetMs = s.utcOffsetMs ∧ (s.restore t).tzOffsetMs = s.tzOffsetMs) ↔
      (s.utcOffsetMs % 2 ^ 32 - s.utcOffsetMs / 2 ^ 32 % 2 ^ 32) * (2 ^ 32 - 1) ≡
          rtcCodeToMs t.rtcVal t.rtcRollovers [ZMOD 2 ^ 64] ∧
        (s.tzOffsetMs = 0 ∨ s.tzOffsetMs = -1 ∨ t.tzOffsetMs = s.tzOffsetMs) := by
  obtain ⟨hutcWords, htzWords⟩ := s.getState_words
  apply and_congr
  · have hutc := s.utc_i64
    rw [restore, setTzOffsetMs_utcOffsetMs]
    show i64 (timeArg _ _ - _) = _ ↔ _
    rw [timeArg, hutcWords.1, hutcWords.2, Int.modEq_iff_dvd]
    generalize rtcCodeToMs t.rtcVal t.rtcRollovers = ms
    generalize s.utcOffsetMs = u at hutc ⊢
    unfold i64 at *
    omega
  · have htz := s.tz_bounds
    rw [restore, setTzOffsetMs_tzOffsetMs, setUtcTimeMs_tzOffsetMs, timeArg, htzWords.1, htzWords.2,
      ite_eq_iff]
    generalize s.tzOffsetMs = z at htz ⊢
    unfold i64 tzLimit at *
    -- an accepted offset has no bit of its own in the high word
    obtain ⟨hhi, hlo⟩ | ⟨hhi, hlo⟩ : z / 2 ^ 32 % 2 ^ 32 = 0 ∧ z % 2 ^ 32 = z ∨
        z / 2 ^ 32 % 2 ^ 32 = 2 ^ 32 - 1 ∧ z % 2 ^ 32 = z + 2 ^ 32 := by omega
    · rw [hhi, hlo]
      omega
    · rw [hhi, hlo]
      omega

/-- An offset of one millisecond comes back as one of 49 days, at a counter of zero. -/
theorem offset_is_not_restored :
    ∃ s : TimeServer, s.utcOffsetMs = 1 ∧ s.tzOffsetMs = 0 ∧ s.rtcVal = 0 ∧ s.rtcRollovers = 0 ∧
      (s.restore s).utcOffsetMs = 2 ^ 32 :=
  ⟨⟨⟨0, 0, 1, by decide⟩, 0, by decide, by decide⟩, rfl, rfl, rfl, rfl, by decide⟩

end TimeServer

end BaochipXous.Rtc
