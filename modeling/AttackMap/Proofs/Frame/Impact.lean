import AttackMap.Proofs.Frame.Exact
import AttackMap.Proofs.Frame.Families

/-!
# Trips and rings

A trip says twice when its head arrives: by the last of its timestamps, which
are steps from the detection on, and by the ring, which begins at the
detection and the time of travel added up. With exact numbers these are one
moment (`VisibleEvent.getLast?_timestamps`), for every severity; a ring is
drawn from it on for 900 milliseconds, both ends included, and grows and
fades all the while.
-/

namespace AttackMap

/-- The severity that counts is from 1 to 10. -/
theorem Event.toNat_clampedSeverity (e : Event) :
    e.clampedSeverity.toNat = max 1 (min 10 e.severity.toNat) := by
  have one : e.severity < 1 ↔ e.severity.toNat < 1 := UInt8.lt_iff_toNat_lt
  have ten : maxSeverity < e.severity ↔ 10 < e.severity.toNat := UInt8.lt_iff_toNat_lt
  have least : (1 : UInt8).toNat = 1 := rfl
  have most : maxSeverity.toNat = 10 := rfl
  rw [clampedSeverity, apply_ite UInt8.toNat, apply_ite UInt8.toNat, least, most]
  simp only [one, ten]
  split
  · omega
  · split <;> omega

section

variable [Scalar.Sine]

/-- The time of travel grows by 120 milliseconds with every degree of severity less than 10. -/
theorem travelTime_exact (severity : UInt8) :
    (travelTime severity : ℚ) = 1200 + 120 * (10 - (max 1 (min 10 severity.toNat) : ℕ)) := by
  have fewer : (if severity < 1 then 1 else min severity Event.maxSeverity).toNat =
      max 1 (min 10 severity.toNat) := by
    have one : severity < 1 ↔ severity.toNat < 1 := UInt8.lt_iff_toNat_lt
    have most : Event.maxSeverity.toNat = 10 := rfl
    have least : (1 : UInt8).toNat = 1 := rfl
    rw [apply_ite UInt8.toNat, UInt8.toNat_min, most, least]
    simp only [one]
    split <;> omega
  have most : Event.maxSeverity.toNat = 10 := rfl
  rw [travelTime, fewer, most, Scalar.ofNat_exact, Scalar.fused_exact, Scalar.literal,
    Scalar.literal, Nat.cast_sub (by omega)]
  norm_num
  ring

namespace VisibleEvent

/-! ## The trip -/

/-- The moment at which an event strikes, in epoch milliseconds. -/
def impact (e : Event) : ℚ :=
  e.detectedAt.toInt + 1200 + 120 * (10 - (max 1 (min 10 e.severity.toNat) : ℕ))

theorem detected_add_travelTime (v : VisibleEvent ℚ) :
    v.detected + travelTime v.severity = impact v.event := by
  have severity : max 1 (min 10 v.severity.toNat) = max 1 (min 10 v.event.severity.toNat) := by
    rw [VisibleEvent.severity, v.event.toNat_clampedSeverity]
    omega
  rw [travelTime_exact, severity, impact, ← add_assoc]
  rfl

/-- The time between two points of a trip. -/
def pace (v : VisibleEvent ℚ) : ℚ := travelTime v.severity / 28

theorem pace_pos (v : VisibleEvent ℚ) : 0 < v.pace := by
  have most : max 1 (min 10 v.severity.toNat) ≤ 10 := by omega
  have within : ((max 1 (min 10 v.severity.toNat) : ℕ) : ℚ) ≤ 10 := by exact_mod_cast most
  rw [pace, travelTime_exact]
  apply div_pos _ (by norm_num)
  linarith

theorem length_path (v : VisibleEvent ℚ) : v.trip.path.length = 29 :=
  Path.length_points v.src v.dst Path.usualSteps

/-- The timestamps of a trip are steps of one length. -/
theorem timestamps_trip (v : VisibleEvent ℚ) :
    v.trip.timestamps = (List.range 29).map fun (i : ℕ) => (i : ℚ) * v.pace + v.detected := by
  have steps : (Scalar.ofNat Path.usualSteps : ℚ) = 28 := Scalar.ofNat_exact 28
  have stepwise : v.trip.timestamps = (List.range v.trip.path.length).map fun i =>
    (Scalar.ofNat i : ℚ) * (travelTime v.severity / Scalar.ofNat Path.usualSteps) + v.detected := rfl
  rw [stepwise, length_path, steps]
  exact List.map_congr_left fun i _ => congrArg (· * v.pace + v.detected) (Scalar.ofNat_exact i)

/-- A trip begins at the detection and ends at the impact, in as many steps as
its path has. -/
structure Arrives (t : Trip ℚ) (e : Event) : Prop where
  points : t.timestamps.length = t.path.length
  rising : t.timestamps.Pairwise (· < ·)
  departs : t.timestamps.head? = some (e.detectedAt.toInt : ℚ)
  arrives : t.timestamps.getLast? = some
    (e.detectedAt.toInt + 1200 + 120 * (10 - (max 1 (min 10 e.severity.toNat) : ℕ)) : ℚ)

theorem head?_timestamps (v : VisibleEvent ℚ) : v.trip.timestamps.head? = some v.detected := by
  rw [timestamps_trip]
  change some (((0 : ℕ) : ℚ) * v.pace + v.detected) = _
  rw [Nat.cast_zero, zero_mul, zero_add]

theorem getLast?_timestamps (v : VisibleEvent ℚ) :
    v.trip.timestamps.getLast? = some (impact v.event) := by
  rw [timestamps_trip, ← detected_add_travelTime]
  change some (((28 : ℕ) : ℚ) * v.pace + v.detected) = _
  rw [pace, Nat.cast_ofNat, mul_div_cancel₀ _ (by norm_num), add_comm]

theorem arrives_trip (v : VisibleEvent ℚ) : Arrives v.trip v.event where
  points := by rw [timestamps_trip, List.length_map, List.length_range, length_path]
  rising := by
    rw [timestamps_trip, List.pairwise_map]
    refine List.pairwise_lt_range.imp fun earlier => ?_
    have fewer : ((_ : ℕ) : ℚ) < _ := Nat.cast_lt.mpr earlier
    exact add_lt_add_left (mul_lt_mul_of_pos_right fewer v.pace_pos) _
  departs := v.head?_timestamps
  arrives := v.getLast?_timestamps

/-! ## The ring -/

/-- The ring of an event so long after its impact. -/
def ringAfter (v : VisibleEvent ℚ) (age : ℚ) : Pulse ℚ where
  id := v.event.id
  position := v.dst
  radius := age / 900 * 55000 + 12000
  fill := .ofSeverity v.severity (0.1 * (1 - age / 900))
  line := .ofSeverity v.severity (0.35 * (1 - age / 900))

/-- What is in `[0, 1]` already is not moved there. -/
theorem clamp01_of_share {x : ℚ} (low : 0 ≤ x) (high : x ≤ 1) : Scalar.clamp01 x = x := by
  rw [Scalar.clamp01_exact, min_eq_right high, max_eq_right low]

/-- The ring is drawn from the impact on for as long as it grows. -/
theorem pulse?_eq (v : VisibleEvent ℚ) (now : Millis) :
    v.pulse? now = if 0 ≤ now.toInt - impact v.event ∧ now.toInt - impact v.event ≤ 900
      then some (v.ringAfter (now.toInt - impact v.event)) else none := by
  have age : (Scalar.ofInt now.toInt - (v.detected + travelTime v.severity) : ℚ) =
      now.toInt - impact v.event := by
    rw [detected_add_travelTime]
    rfl
  rw [pulse?, age]
  generalize (now.toInt - impact v.event : ℚ) = age
  by_cases lasts : 0 ≤ age ∧ age ≤ 900
  · have share : Scalar.clamp01 (age / 900) = age / 900 :=
      clamp01_of_share (div_nonneg lasts.1 (by norm_num)) (div_le_one_of_le₀ lasts.2 (by norm_num))
    norm_num [pulseTime, Scalar.literal, Scalar.atMost_iff, lasts, share, Scalar.fused_exact,
      ringAfter]
  · norm_num [pulseTime, Scalar.literal, Scalar.atMost_iff, lasts]

theorem pulse?_eq_some_iff {v : VisibleEvent ℚ} {now : Millis} {p : Pulse ℚ} :
    v.pulse? now = some p ↔
      (0 ≤ now.toInt - impact v.event ∧ now.toInt - impact v.event ≤ 900) ∧
        v.ringAfter (now.toInt - impact v.event) = p := by
  rw [pulse?_eq, Option.ite_none_right_eq_some, Option.some_inj]

/-- A ring later on. -/
structure Spreads (p later : Pulse ℚ) : Prop where
  least : 12000 ≤ p.radius
  radius : p.radius ≤ later.radius
  most : later.radius ≤ 67000
  fill : later.fill.alpha ≤ p.fill.alpha
  line : later.line.alpha ≤ p.line.alpha

/-- A ring grows and fades. -/
theorem spreads_ringAfter {v v' : VisibleEvent ℚ} {age age' : ℚ} (begun : 0 ≤ age)
    (older : age ≤ age') (lasts : age' ≤ 900) : Spreads (v.ringAfter age) (v'.ringAfter age') := by
  constructor
  case least => simp only [ringAfter]; linarith
  case radius => simp only [ringAfter]; linarith
  case most => simp only [ringAfter]; linarith
  case fill => exact Rgba.alpha_ofSeverity_mono _ _ (by linarith)
  case line => exact Rgba.alpha_ofSeverity_mono _ _ (by linarith)

end VisibleEvent

namespace Frame

open VisibleEvent

/-- A frame in which trips and rings are of one mind. -/
structure Timely (visible : List (VisibleEvent ℚ)) (now : Millis) (frame : Frame ℚ) : Prop where
  trips : frame.trips = visible.map trip
  arrives : ∀ v ∈ visible, Arrives v.trip v.event
  pulses : frame.pulses = (newest 260 visible).filterMap (pulse? · now)
  /-- A ring is drawn from the last timestamp of the trip on, and no longer
  than for 900 milliseconds. -/
  rings : ∀ v ∈ newest 260 visible, (v.pulse? now).isSome ↔
    ∃ last ∈ v.trip.timestamps.getLast?, 0 ≤ now.toInt - last ∧ now.toInt - last ≤ 900
  /-- Its radius goes from 12000 to 67000 metres in that time. -/
  radius : ∀ v ∈ newest 260 visible, ∀ p ∈ v.pulse? now,
    ∃ last ∈ v.trip.timestamps.getLast?, p.radius = 12000 + 55000 * ((now.toInt - last) / 900)

theorem timely_of (s : Snapshot) (f : Filter) (now : Millis) :
    Timely (VisibleEvent.visible s.events f now) now (.of s f now) where
  trips := trips_of s f now
  arrives v _ := v.arrives_trip
  pulses := by rw [pulses_of, VisibleEvent.visible, ← pulseCount, newest_newest pulseCount_le_most]
  rings v _ := by
    rw [pulse?_eq, Option.isSome_ite, v.getLast?_timestamps]
    simp only [Option.mem_some_iff, exists_eq_left']
  radius v _ p rings := by
    obtain ⟨-, rfl⟩ := pulse?_eq_some_iff.mp rings
    refine ⟨impact v.event, v.getLast?_timestamps, ?_⟩
    simp only [ringAfter]
    ring

/-- **A ring begins when the head of the trip arrives, grows and fades.** Every trip leaves
at the detection and is on its way for 1200 milliseconds and 120 more for every degree of
severity less than 10. -/
theorem rings_with_trips (s : Snapshot) (f : Filter) (now later : Millis) :
    Timely (VisibleEvent.visible s.events f now) now (.of s f now) ∧
      ∀ v v' : VisibleEvent ℚ, v.event = v'.event → now ≤ later →
        ∀ p ∈ v.pulse? now, ∀ p' ∈ v'.pulse? later, Spreads p p' := by
  refine ⟨timely_of s f now, fun v v' same order p rings p' rings' => ?_⟩
  obtain ⟨⟨begun, -⟩, rfl⟩ := pulse?_eq_some_iff.mp rings
  obtain ⟨⟨-, lasts⟩, rfl⟩ := pulse?_eq_some_iff.mp rings'
  rw [← same] at lasts ⊢
  have order : (now.toInt : ℚ) ≤ later.toInt := by exact_mod_cast Int64.le_iff_toInt_le.mp order
  exact spreads_ringAfter begun (by linarith) lasts

end Frame

end

namespace Frame

open VisibleEvent

/-- An event of severity 5 that was detected at 0. -/
def strike : VisibleEvent ℚ := ⟨Client.numbered 1, ⟨0, 0⟩, ⟨45, 0⟩, 1⟩

theorem impact_strike : impact strike.event = 1800 := by
  have detected : strike.event.detectedAt.toInt = 0 := by decide
  have severity : strike.event.severity.toNat = 5 := rfl
  rw [impact, detected, severity]
  norm_num

/-- It strikes at 1800, and its ring is half grown at 2250. -/
theorem rings_with_trips_strike :
    letI := Scalar.Sine.flat
    strike.ringAfter 0 ∈ strike.pulse? 1800 ∧ strike.ringAfter 450 ∈ strike.pulse? 2250 ∧
      (1800 : Millis) ≤ 2250 ∧ Spreads (strike.ringAfter 0) (strike.ringAfter 450) := by
  let _ := Scalar.Sine.flat
  have sooner : strike.ringAfter 0 ∈ strike.pulse? 1800 := by
    have now : Int64.toInt 1800 = 1800 := by decide
    rw [Option.mem_def, pulse?_eq, impact_strike, now]
    norm_num
  have later : strike.ringAfter 450 ∈ strike.pulse? 2250 := by
    have now : Int64.toInt 2250 = 2250 := by decide
    rw [Option.mem_def, pulse?_eq, impact_strike, now]
    norm_num
  have order : (1800 : Millis) ≤ 2250 := by decide
  exact ⟨sooner, later, order, (rings_with_trips ⟨[strike.event], none⟩ .initial 1800 2250).2
    strike strike rfl order _ sooner _ later⟩

end Frame

end AttackMap
