import EsmpServer.Expr.Variable
import Mathlib

/-!
# `SimpleCron`

`SimpleCron` (utils/config/cron.rs) is a minute of every hour, a time of every day, or a time
on one weekday. `parse_value` reads `minute hour weekday` field by field, `*` standing for an
hour or a weekday left out; `time_to_next` takes today's time of the spec and moves it on by
an hour, a day, or `7 - weekday + day` days when it is not after now.

Instants are nanoseconds since the epoch, and local time is UTC moved by a fixed `offset`.
The hourly and daily specs give the first instant after now that they name
(`timeToNext_hour`, `timeToNext_day`). The weekly one does not: `parse_value` checks the
hour where the weekday belongs, so it reads a weekly spec exactly when its hour is between 1
and 7 (`parseValue_three`), and `time_to_next` returns today's time whenever it is still
ahead, on any weekday (`timeToNext_week_of_lt`).
-/

namespace EsmpServer.Utils

open EsmpServer.Expr

/-! ## Local time -/

/-- Nanoseconds in a second, a minute, an hour and a day. -/
def nsSecond : ℤ := 1000000000

def nsMinute : ℤ := 60000000000

def nsHour : ℤ := 3600000000000

def nsDay : ℤ := 86400000000000

/-- Nanoseconds since the local midnight before `t`. -/
def timeOfDay (offset t : ℤ) : ℤ := (t + offset) % nsDay

/-- `Timelike::hour`. -/
def localHour (offset t : ℤ) : ℕ := (timeOfDay offset t / nsHour).toNat

/-- `Timelike::minute`. -/
def localMinute (offset t : ℤ) : ℕ := (timeOfDay offset t % nsHour / nsMinute).toNat

/-- `weekday().number_from_monday()`: the first day of the epoch is a Thursday. -/
def weekday (offset t : ℤ) : ℕ := (((t + offset) / nsDay + 3) % 7 + 1).toNat

/-- `Local.with_ymd_and_hms` at the date of `now`, second 0, `.earliest()`: `none` when the
hour or the minute is out of range. -/
def withHms (offset now : ℤ) (hour minute : ℕ) : Option ℤ :=
  if hour ≤ 23 ∧ minute ≤ 59 then some (now - timeOfDay offset now + hour * nsHour + minute * nsMinute)
  else none

/-- `TimeDelta::to_std`, which the `unwrap` of `time_to_next` turns into a panic when it fails
on a negative duration. -/
def toStd (d : ℤ) : Option ℕ := if 0 ≤ d then some d.toNat else none

/-! ## The spec -/

/-- `SimpleCron`. -/
inductive SimpleCron where
  | day (hour minute : ℕ)
  | week (day hour minute : ℕ)
  | hour (minute : ℕ)
  deriving DecidableEq, Repr

/-- `Default for SimpleCron`. -/
instance : Inhabited SimpleCron := ⟨.hour 0⟩

/-- `SimpleCron::time_to_next` at `now`, in nanoseconds; `none` is the panic. -/
def timeToNext (offset now : ℤ) : SimpleCron → Option ℕ
  | .day hour minute =>
    let next := (withHms offset now hour minute).getD (now - nsSecond)
    let next := if next ≤ now then next + nsDay else next
    toStd (next - now)
  | .week day hour minute =>
    let next := (withHms offset now hour minute).getD (now - nsSecond)
    let next := if next ≤ now then next + ((7 - weekday offset now + day : ℕ) : ℤ) * nsDay else next
    toStd (next - now)
  | .hour minute =>
    let next := (withHms offset now (localHour offset now) minute).getD (now - nsSecond)
    let next := if next ≤ now then next + nsHour else next
    toStd (next - now)

/-- The instants a spec names: whole minutes (second and nanosecond 0) at its minute, and at its
hour and ISO weekday where it has them. -/
def Matches (offset t : ℤ) : SimpleCron → Prop
  | .day hour minute => timeOfDay offset t % nsMinute = 0 ∧ localHour offset t = hour ∧ localMinute offset t = minute
  | .week day hour minute =>
    timeOfDay offset t % nsMinute = 0 ∧ localHour offset t = hour ∧ localMinute offset t = minute ∧
      weekday offset t = day
  | .hour minute => timeOfDay offset t % nsMinute = 0 ∧ localMinute offset t = minute

/-- `t` is the first instant after `now` that the spec names. -/
def IsNext (cron : SimpleCron) (offset now t : ℤ) : Prop :=
  now < t ∧ Matches offset t cron ∧ ∀ t', now < t' → Matches offset t' cron → t ≤ t'

/-! ## Parsing -/

/-- The loop of `parse_value` over the fields, at field `pos`, with the hour and the minute
read so far. -/
def parseFields (hour minute : ℕ) : ℕ → List (List Char) → Except String SimpleCron
  | _, [] => .error "Invalid cron key: parse cron expression."
  | pos, value :: rest =>
    match pos with
    | 0 =>
      match parseU32 (String.ofList value) with
      | none => .error "Invalid cron key: failed to parse cron minute"
      | some minute =>
        if minute ≤ 59 then parseFields hour minute (pos + 1) rest
        else .error ("Invalid cron key: failed to parse minute, invalid value: " ++ toString minute)
    | 1 =>
      match value.head? with
      | none => .error "Invalid cron key: failed to parse cron hour"
      | some c =>
        if c = '*' then .ok (.hour minute)
        else
          match parseU32 (String.ofList value) with
          | none => .error "Invalid cron key: failed to parse cron hour"
          | some hour =>
            if hour ≤ 23 then parseFields hour minute (pos + 1) rest
            else .error ("Invalid cron key: failed to parse hour, invalid value: " ++ toString hour)
    | 2 =>
      match value.head? with
      | none => .error "Invalid cron key: failed to parse cron weekday"
      | some c =>
        if c = '*' then .ok (.day hour minute)
        else
          match parseU32 (String.ofList value) with
          | none => .error "Invalid cron key: failed to parse cron weekday"
          | some day =>
            if 1 ≤ hour ∧ hour ≤ 7 then .ok (.week day hour minute)
            else .error ("Invalid cron key: failed to parse weekday, invalid value: " ++ toString hour ++
              ", range is 1 (Monday) to 7 (Sunday).")
    | _ => parseFields hour minute (pos + 1) rest

/-- `SimpleCron::parse_value`: the fields between the spaces, in order. -/
def parseValue (value : String) : Except String SimpleCron :=
  parseFields 0 0 0 (value.toList.splitOn ' ')

/-! ## The first instant of a residue class

`time_to_next` takes the instant `phase` into the current period (an hour or a day) and moves
it on by one period when it is not after `now`. That is the first instant after `now` whose
residue modulo the period is `phase`. -/

section Period

variable {period phase offset now : ℤ}

theorem emod_start_add_phase (hphase : 0 ≤ phase) (hlt : phase < period) :
    (now - (now + offset) % period + phase + offset) % period = phase := by
  have hdiv := Int.emod_add_mul_ediv (now + offset) period
  have heq : now - (now + offset) % period + phase + offset = phase + period * ((now + offset) / period) := by
    omega
  rw [heq, Int.add_mul_emod_self_left, Int.emod_eq_of_lt hphase hlt]

theorem lt_start_add_phase (hperiod : 0 < period) (hphase : 0 ≤ phase) :
    now < if now - (now + offset) % period + phase ≤ now then now - (now + offset) % period + phase + period
      else now - (now + offset) % period + phase := by
  have hr := Int.emod_lt_of_pos (now + offset) hperiod
  split_ifs with hle
  · linarith
  · linarith

theorem start_add_phase_le (hperiod : 0 < period) (hlt : phase < period) {t : ℤ} (ht : now < t)
    (hres : (t + offset) % period = phase) :
    (if now - (now + offset) % period + phase ≤ now then now - (now + offset) % period + phase + period
      else now - (now + offset) % period + phase) ≤ t := by
  have hnow := Int.emod_add_mul_ediv (now + offset) period
  have hthen := Int.emod_add_mul_ediv (t + offset) period
  have hr := Int.emod_nonneg (now + offset) (ne_of_gt hperiod)
  have hr' := Int.emod_lt_of_pos (now + offset) hperiod
  rw [hres] at hthen
  set q := (now + offset) / period
  set q' := (t + offset) / period
  set r := (now + offset) % period
  split_ifs with hle
  · have hq : q + 1 ≤ q' := by
      by_contra hq
      have : period * q' ≤ period * q := by nlinarith
      omega
    nlinarith
  · have hq : q ≤ q' := by
      by_contra hq
      have : period * q' + period ≤ period * q := by nlinarith
      omega
    nlinarith

theorem isLeast_start_add_phase (hperiod : 0 < period) (hphase : 0 ≤ phase) (hlt : phase < period) :
    let next := if now - (now + offset) % period + phase ≤ now then now - (now + offset) % period + phase + period
      else now - (now + offset) % period + phase
    now < next ∧ (next + offset) % period = phase ∧ ∀ t, now < t → (t + offset) % period = phase → next ≤ t := by
  intro next
  refine ⟨lt_start_add_phase hperiod hphase, ?_, fun t ht hres => start_add_phase_le hperiod hlt ht hres⟩
  show (ite _ _ _ + offset) % period = phase
  split_ifs
  · rw [show now - (now + offset) % period + phase + period + offset =
        (now - (now + offset) % period + phase + offset) + period * 1 by omega,
      Int.add_mul_emod_self_left, emod_start_add_phase hphase hlt]
  · exact emod_start_add_phase hphase hlt

end Period

/-! ## Hourly and daily specs -/

section Time

variable {offset now : ℤ} {hour minute : ℕ}

theorem matches_day_iff (hm : minute ≤ 59) (t : ℤ) :
    Matches offset t (.day hour minute) ↔ (t + offset) % nsDay = hour * nsHour + minute * nsMinute := by
  simp only [Matches, localHour, localMinute, timeOfDay, nsDay, nsHour, nsMinute]
  omega

theorem matches_hour_iff (t : ℤ) :
    Matches offset t (.hour minute) ↔ (t + offset) % nsHour = minute * nsMinute := by
  simp only [Matches, localMinute, timeOfDay, nsDay, nsHour, nsMinute]
  omega

theorem localHour_le : localHour offset now ≤ 23 := by
  simp only [localHour, timeOfDay, nsDay, nsHour]
  omega

theorem withHms_of_le (hh : hour ≤ 23) (hm : minute ≤ 59) :
    withHms offset now hour minute = some (now - timeOfDay offset now + hour * nsHour + minute * nsMinute) :=
  if_pos ⟨hh, hm⟩

theorem toStd_sub {next : ℤ} (h : now < next) : toStd (next - now) = some (next - now).toNat :=
  if_pos (by omega)

theorem isNext_of_residue {cron : SimpleCron} {period phase : ℤ} (hperiod : 0 < period) (hphase : 0 ≤ phase)
    (hlt : phase < period) (hmatches : ∀ t, Matches offset t cron ↔ (t + offset) % period = phase) :
    ∃ d, toStd ((if now - (now + offset) % period + phase ≤ now then now - (now + offset) % period + phase + period
        else now - (now + offset) % period + phase) - now) = some d ∧ IsNext cron offset now (now + d) := by
  obtain ⟨hafter, hres, hleast⟩ := @isLeast_start_add_phase period phase offset now hperiod hphase hlt
  set next := if now - (now + offset) % period + phase ≤ now then now - (now + offset) % period + phase + period
    else now - (now + offset) % period + phase
  refine ⟨(next - now).toNat, toStd_sub hafter, ?_⟩
  rw [show now + ((next - now).toNat : ℤ) = next by omega]
  exact ⟨hafter, (hmatches next).mpr hres, fun t ht hmt => hleast t ht ((hmatches t).mp hmt)⟩

theorem timeToNext_day (hh : hour ≤ 23) (hm : minute ≤ 59) :
    ∃ d, timeToNext offset now (.day hour minute) = some d ∧ IsNext (.day hour minute) offset now (now + d) := by
  have hcode : timeToNext offset now (.day hour minute) =
      toStd ((if now - (now + offset) % nsDay + (hour * nsHour + minute * nsMinute) ≤ now then
          now - (now + offset) % nsDay + (hour * nsHour + minute * nsMinute) + nsDay
        else now - (now + offset) % nsDay + (hour * nsHour + minute * nsMinute)) - now) := by
    simp only [timeToNext, withHms_of_le hh hm, Option.getD_some, timeOfDay, add_assoc]
  rw [hcode]
  exact isNext_of_residue (by decide) (by simp only [nsHour, nsMinute]; omega)
    (by simp only [nsDay, nsHour, nsMinute]; omega) (matches_day_iff hm)

theorem timeToNext_hour (hm : minute ≤ 59) :
    ∃ d, timeToNext offset now (.hour minute) = some d ∧ IsNext (.hour minute) offset now (now + d) := by
  have hstart : now - timeOfDay offset now + (localHour offset now : ℤ) * nsHour = now - (now + offset) % nsHour := by
    simp only [timeOfDay, localHour, nsDay, nsHour]
    omega
  have hcode : timeToNext offset now (.hour minute) =
      toStd ((if now - (now + offset) % nsHour + minute * nsMinute ≤ now then
          now - (now + offset) % nsHour + minute * nsMinute + nsHour
        else now - (now + offset) % nsHour + minute * nsMinute) - now) := by
    simp only [timeToNext, withHms_of_le localHour_le hm, Option.getD_some, hstart]
  rw [hcode]
  exact isNext_of_residue (by decide) (by simp only [nsMinute]; omega)
    (by simp only [nsHour, nsMinute]; omega) matches_hour_iff

/-! ## Weekly specs -/

variable {day : ℕ}

theorem timeToNext_week_of_lt (hh : hour ≤ 23) (hm : minute ≤ 59)
    (hbefore : timeOfDay offset now < hour * nsHour + minute * nsMinute) :
    timeToNext offset now (.week day hour minute) =
      some (hour * nsHour + minute * nsMinute - timeOfDay offset now).toNat := by
  have hnext : ¬ now - timeOfDay offset now + hour * nsHour + minute * nsMinute ≤ now := by omega
  simp only [timeToNext, withHms_of_le hh hm, Option.getD_some, if_neg hnext]
  rw [toStd_sub (by omega)]
  congr 2
  omega

theorem timeToNext_week_of_ge (hh : hour ≤ 23) (hm : minute ≤ 59)
    (hafter : hour * nsHour + minute * nsMinute ≤ timeOfDay offset now) :
    timeToNext offset now (.week day hour minute) =
      toStd (hour * nsHour + minute * nsMinute - timeOfDay offset now +
        ((7 - weekday offset now + day : ℕ) : ℤ) * nsDay) := by
  have hnext : now - timeOfDay offset now + hour * nsHour + minute * nsMinute ≤ now := by omega
  simp only [timeToNext, withHms_of_le hh hm, Option.getD_some, if_pos hnext]
  congr 1
  omega

theorem weekday_add_of_lt {d : ℤ} (hd : 0 ≤ d) (hlt : timeOfDay offset now + d < nsDay) :
    weekday offset (now + d) = weekday offset now := by
  simp only [weekday, timeOfDay, nsDay] at hlt ⊢
  omega

end Time

/-! ## Reading three fields -/

theorem head?_toDigits (n : ℕ) : ∃ c, (Nat.toDigits 10 n).head? = some c ∧ c ≠ '*' := by
  obtain ⟨c, cs, hcs⟩ := List.exists_cons_of_ne_nil (Nat.toDigits_ne_nil (n := n) (b := 10))
  have hdigit := Nat.isDigit_of_mem_toDigits (by decide) (by decide) (hcs ▸ List.mem_cons_self : c ∈ Nat.toDigits 10 n)
  refine ⟨c, by rw [hcs]; rfl, ?_⟩
  rintro rfl
  exact absurd hdigit (by decide)

theorem splitOn_three (m h d : ℕ) :
    (toString m ++ " " ++ toString h ++ " " ++ toString d).toList.splitOn ' ' =
      [Nat.toDigits 10 m, Nat.toDigits 10 h, Nat.toDigits 10 d] := by
  have hnospace : ∀ l ∈ [Nat.toDigits 10 m, Nat.toDigits 10 h, Nat.toDigits 10 d], ' ' ∉ l := by
    intro l hl hspace
    simp only [List.mem_cons, List.not_mem_nil, or_false] at hl
    rcases hl with rfl | rfl | rfl <;>
      exact absurd (Nat.isDigit_of_mem_toDigits (by decide) (by decide) hspace) (by decide)
  have htext : (toString m ++ " " ++ toString h ++ " " ++ toString d).toList =
      [' '].intercalate [Nat.toDigits 10 m, Nat.toDigits 10 h, Nat.toDigits 10 d] := by
    simp [String.toList_append, List.intercalate]
  rw [htext, List.splitOn_intercalate ' ' hnospace (by simp)]

theorem parseValue_three {minute hour day : ℕ} (hm : minute ≤ 59) (hh : hour ≤ 23) (hd : day < 2 ^ 32) :
    parseValue (toString minute ++ " " ++ toString hour ++ " " ++ toString day) =
      if 1 ≤ hour ∧ hour ≤ 7 then .ok (.week day hour minute)
      else .error ("Invalid cron key: failed to parse weekday, invalid value: " ++ toString hour ++
        ", range is 1 (Monday) to 7 (Sunday).") := by
  obtain ⟨c, hc, hstar⟩ := head?_toDigits hour
  obtain ⟨c', hc', hstar'⟩ := head?_toDigits day
  rw [parseValue, splitOn_three]
  simp only [parseFields, parseU32_toDigits (by omega : minute < 2 ^ 32), if_pos hm, hc, if_neg hstar,
    parseU32_toDigits (by omega : hour < 2 ^ 32), if_pos hh, hc', if_neg hstar', parseU32_toDigits hd]

/-! ## Weekly specs -/

/-- A weekly spec is read when its hour, not its weekday, is between 1 and 7; and before its
time of day, `time_to_next` gives that time today, on a weekday that need not be the spec's. -/
theorem simpleCron_weekly (minute hour day : ℕ) (hm : minute ≤ 59) (hh : hour ≤ 23) (hd : day < 2 ^ 32) :
    ((∃ cron, parseValue (toString minute ++ " " ++ toString hour ++ " " ++ toString day) = .ok cron) ↔
        1 ≤ hour ∧ hour ≤ 7) ∧
      ∀ offset now : ℤ, timeOfDay offset now < hour * nsHour + minute * nsMinute → weekday offset now ≠ day →
        ∃ d, timeToNext offset now (.week day hour minute) = some d ∧
          weekday offset (now + d) = weekday offset now ∧ ¬ IsNext (.week day hour minute) offset now (now + d) := by
  constructor
  · rw [parseValue_three hm hh hd]
    split_ifs with hrange
    · exact iff_of_true ⟨_, rfl⟩ hrange
    · exact iff_of_false (fun ⟨_, h⟩ => nomatch h) hrange
  · intro offset now hbefore hday
    refine ⟨_, timeToNext_week_of_lt hh hm hbefore, ?_⟩
    have hsame : weekday offset (now + ((hour * nsHour + minute * nsMinute - timeOfDay offset now).toNat : ℤ)) =
        weekday offset now := by
      apply weekday_add_of_lt (by omega)
      simp only [nsDay, nsHour, nsMinute] at hbefore ⊢
      omega
    refine ⟨hsame, fun hnext => hday ?_⟩
    rw [← hsame]
    exact hnext.2.1.2.2.2

theorem simpleCron_weekly_wednesdayNoon :
    (¬ ∃ cron, parseValue (toString 0 ++ " " ++ toString 12 ++ " " ++ toString 3) = .ok cron) ∧
      weekday 0 0 = 4 ∧
      ∃ d, timeToNext 0 0 (.week 1 1 0) = some d ∧ weekday 0 (0 + d) = weekday 0 0 ∧
        ¬ IsNext (.week 1 1 0) 0 0 (0 + d) :=
  ⟨fun h => absurd ((simpleCron_weekly 0 12 3 (by decide) (by decide) (by decide)).1.mp h).2 (by decide),
    by decide,
    (simpleCron_weekly 0 1 1 (by decide) (by decide) (by decide)).2 0 0 (by decide) (by decide)⟩

end EsmpServer.Utils
