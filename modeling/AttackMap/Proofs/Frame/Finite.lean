import AttackMap.Frame.Basic
import AttackMap.Proofs.Binary64.Within
import AttackMap.Proofs.Client.Repetition

/-!
# Finite frames

Places are only drawn if their coordinates are finite, and nothing else that
a frame is computed from could be infinite: whole numbers and constants. So
arcs, timestamps, rings and dots are finite, whatever the snapshot and the
clock (`Frame.IsSound`).

Paths are the exception. A path starts with the difference of its ends, and
two finite doubles far enough apart have none that is finite
(`Frame.path_not_finite`). How far is too far is decided by the last point of
a path: if it is finite, so are the others, which lie between it and the
source (`Path.isFinite_iff_last`). Coordinates below `Path.moderate`, as all
degrees are, are never too far apart.

The sine is a parameter (`Scalar.withSine`), of which nothing is used but
its range.
-/

namespace AttackMap

open Binary64

/-! ## Drawing with a sine -/

/-- Doubles with a sine of half turns. -/
@[reducible] def Scalar.withSine (sine : Float → Float) : Scalar Float :=
  { (inferInstance : Scalar Float) with sinPi := sine }

/-- The frame of a snapshot, its paths bent by a sine. -/
def Frame.bent (sine : Float → Float) (s : Snapshot) (f : Filter) (now : Millis) : Frame Float :=
  @Frame.of Float (.withSine sine) s f now

/-- With the sine of the platform it is the frame that is drawn. -/
theorem Frame.bent_platform (s : Snapshot) (f : Filter) (now : Millis) :
    Frame.bent (fun t => (3.141592653589793 * t).sin) s f now = Frame.of s f now :=
  rfl

/-- From 0 to 1, which is half a turn, a sine is from 0 to 1. -/
def SineRange (sine : Float → Float) : Prop :=
  ∀ t : Float, 0.0 ≤ t → t ≤ 1.0 → 0.0 ≤ sine t ∧ sine t ≤ 1.0

namespace Path

/-! ## Paths -/

/-- How far along a path its points are. -/
def progress (i : Nat) : Float := Scalar.ofNat i / Scalar.ofNat usualSteps

theorem progress_bounds : ∀ i < usualSteps + 1, 0.0 ≤ progress i ∧ progress i ≤ 1.0 := by
  decide +kernel

theorem progress_last : progress usualSteps = 1.0 := by decide +kernel

/-- A point of a path that is bent by a sine. -/
def bentPoint (sine : Float → Float) (src dst : LonLat Float) (i : Nat) : LonLat Float :=
  ⟨between src.lon dst.lon (progress i),
    between src.lat dst.lat (progress i) + sine (progress i) * bulge⟩

theorem points_eq (sine : Float → Float) (src dst : LonLat Float) :
    @points Float (.withSine sine) src dst usualSteps =
      (List.range (usualSteps + 1)).map (bentPoint sine src dst) :=
  rfl

theorem getLast?_points (sine : Float → Float) (src dst : LonLat Float) :
    (@points Float (.withSine sine) src dst usualSteps).getLast? =
      some (bentPoint sine src dst usualSteps) :=
  rfl

variable {a b t : Float}

/-- What is below a bound at both ends is below it in between. -/
theorem abs_between_lt {d p τ bound : ℚ} (low : 0 ≤ τ) (high : τ ≤ 1) (first : |p| < bound)
    (last : |d * 1 + p| < bound) : |d * τ + p| < bound := by
  rw [mul_one] at last
  have below : max |p| |d + p| < bound := max_lt first last
  refine lt_of_le_of_lt ?_ below
  calc
    |d * τ + p| = |(1 - τ) * p + τ * (d + p)| := by
      congr 1
      ring
    _ ≤ (1 - τ) * |p| + τ * |d + p| := by
      refine (abs_add_le _ _).trans_eq ?_
      rw [abs_mul, abs_mul, abs_of_nonneg low, abs_of_nonneg (sub_nonneg.mpr high)]
    _ ≤ (1 - τ) * max |p| |d + p| + τ * max |p| |d + p| :=
      add_le_add (mul_le_mul_of_nonneg_left (le_max_left _ _) (sub_nonneg.mpr high))
        (mul_le_mul_of_nonneg_left (le_max_right _ _) low)
    _ = max |p| |d + p| := by ring

/-- **Where the way ends finite it is finite all along.** -/
theorem isFinite_between_of_last (source : a.isFinite = true) (share : IsShare t)
    (last : (between a b 1.0).isFinite = true) : (between a b t).isFinite = true := by
  obtain ⟨p, start⟩ := (isFinite_iff a).mp source
  obtain ⟨d, difference⟩ := (isFinite_iff (b - a)).mp (isFinite_of_fused last)
  obtain ⟨τ, way, low, high⟩ := share
  have end_lt := (difference.isFinite_fused_iff stands_one start).mp last
  exact (difference.isFinite_fused_iff way start).mpr (abs_between_lt low high start.abs_lt end_lt)

/-- The bulge of a path is small. -/
theorem within_bulge {s : Float} (share : IsShare s) : Within (s * bulge) (2 ^ 4) := by
  obtain ⟨σ, stands, low, high⟩ := share
  have eight : Stands (bulge : Float) 8 := by
    have value := @stands_of_parts bulge false (2 ^ 52) (-49) rfl
    norm_num at value
    exact value
  have size : |σ * 8| < 2 ^ (4 : Int) := by
    rw [abs_lt]
    norm_num
    constructor <;> linarith
  have below : (2 : ℚ) ^ (4 : Int) ≤ 2 ^ (1023 : Int) := zpow_le_zpow_right₀ one_le_two (by decide)
  obtain ⟨v, product, bounds⟩ := stands.mul eight (size.trans_le (below.trans two_zpow_le_ceiling))
  exact ⟨v, product, bounds 4 (by decide) size⟩

/-- Bending does not make a path infinite. -/
theorem isFinite_bent {x s : Float} (share : IsShare s) :
    (x + s * bulge).isFinite = true ↔ x.isFinite = true := by
  constructor
  · exact isFinite_of_add
  · intro finite
    obtain ⟨p, stands⟩ := (isFinite_iff x).mp finite
    obtain ⟨v, product, small⟩ := within_bulge share
    have less : |v| < 2 ^ (970 : Int) := by
      refine small.trans_lt ?_
      rw [← zpow_natCast]
      exact zpow_lt_zpow_right₀ one_lt_two (by decide)
    obtain ⟨w, sum⟩ := stands.exists_add product (.inr less)
    exact sum.isFinite

section

variable {sine : Float → Float} (range : SineRange sine) {src dst : LonLat Float}
include range

theorem isFinite_bentPoint {i : Nat} (le : i < usualSteps + 1) :
    (bentPoint sine src dst i).isFinite = true ↔
      (between src.lon dst.lon (progress i)).isFinite = true ∧
        (between src.lat dst.lat (progress i)).isFinite = true := by
  obtain ⟨low, high⟩ := progress_bounds i le
  obtain ⟨low', high'⟩ := range _ low high
  rw [LonLat.isFinite, Bool.and_eq_true, bentPoint]
  exact and_congr_right fun _ => isFinite_bent (isShare_of_le low' high')

/-- **A path is finite if its last point is.** -/
theorem isFinite_iff_last (source : src.isFinite = true) :
    (∀ p ∈ @points Float (.withSine sine) src dst usualSteps, p.isFinite = true) ↔
      ∀ p ∈ (@points Float (.withSine sine) src dst usualSteps).getLast?, p.isFinite = true := by
  constructor
  · intro all p last
    exact all p (List.mem_of_getLast? last)
  · intro last p mem
    rw [points_eq, List.mem_map] at mem
    obtain ⟨i, le, rfl⟩ := mem
    rw [List.mem_range] at le
    have ends := last _ (getLast?_points sine src dst)
    rw [isFinite_bentPoint range (by decide), progress_last] at ends
    rw [LonLat.isFinite, Bool.and_eq_true] at source
    obtain ⟨low, high⟩ := progress_bounds i le
    have share := isShare_of_le low high
    rw [isFinite_bentPoint range le]
    exact ⟨isFinite_between_of_last source.1 share ends.1,
      isFinite_between_of_last source.2 share ends.2⟩

end

/-! ## Moderate coordinates -/

/-- A quarter of the power of two above the largest double. -/
def moderate : ℚ := 2 ^ (1022 : Int)

/-- A double of moderate size. -/
def IsModerate (x : Float) : Prop := ∃ q, Stands x q ∧ |q| < moderate

theorem two_moderate : moderate + moderate = 2 ^ (1023 : Int) := by
  rw [moderate, show (1023 : Int) = 1022 + 1 from rfl, zpow_add_one₀ two_ne_zero, mul_two]

theorem three_moderate_lt : moderate + moderate + moderate < ceiling := by
  have unit : (0 : ℚ) < 2 ^ (970 : Int) := by positivity
  have power : moderate = 2 ^ 52 * 2 ^ (970 : Int) := two_zpow_add 970 52
  rw [power, ceiling, ← add_mul, ← add_mul]
  exact mul_lt_mul_of_pos_right (by norm_num) unit

theorem isFinite_between_moderate (ha : IsModerate a) (hb : IsModerate b) :
    (between a b 1.0).isFinite = true := by
  obtain ⟨p, start, hp⟩ := ha
  obtain ⟨q, target, hq⟩ := hb
  have apart : |q - p| < 2 ^ (1023 : Int) := by
    rw [← two_moderate]
    exact (abs_sub q p).trans_lt (add_lt_add hq hp)
  obtain ⟨d, difference, bounds⟩ := target.sub start (apart.trans_le two_zpow_le_ceiling)
  have size := bounds 1023 (by decide) apart
  rw [← two_moderate] at size
  refine (difference.isFinite_fused_iff stands_one start).mpr ?_
  rw [mul_one]
  exact ((abs_add_le d p).trans_lt (add_lt_add_of_le_of_lt size hp)).trans three_moderate_lt

/-- Between moderate coordinates every path is finite. -/
theorem isFinite_moderate {sine : Float → Float} (range : SineRange sine) {src dst : LonLat Float}
    (source : IsModerate src.lon ∧ IsModerate src.lat)
    (target : IsModerate dst.lon ∧ IsModerate dst.lat) :
    ∀ p ∈ @points Float (.withSine sine) src dst usualSteps, p.isFinite = true := by
  have finite {x : Float} (moderate : IsModerate x) : x.isFinite = true := by
    obtain ⟨q, stands, -⟩ := moderate
    exact stands.isFinite
  refine (isFinite_iff_last range ?_).mpr ?_
  · rw [LonLat.isFinite, Bool.and_eq_true]
    exact ⟨finite source.1, finite source.2⟩
  · intro p last
    rw [getLast?_points] at last
    obtain rfl := Option.some.inj last
    rw [isFinite_bentPoint range (by decide), progress_last]
    exact ⟨isFinite_between_moderate source.1 target.1,
      isFinite_between_moderate source.2 target.2⟩

end Path

/-! ## Whole numbers and constants -/

theorem isFinite_ofInt (i : Millis) : (Scalar.ofInt i.toInt : Float).isFinite = true := by
  have low := i.le_toInt
  have high := i.toInt_lt
  refine (isFinite_nearest_iff _ Nat.one_ne_zero).mpr ?_
  rw [Nat.cast_one, div_one]
  have word : (i.toInt.natAbs : ℚ) < 2 ^ 64 := by
    have : i.toInt.natAbs < 2 ^ 64 := by omega
    exact_mod_cast this
  calc
    (i.toInt.natAbs : ℚ) < 2 ^ (64 : Int) := word
    _ ≤ 2 ^ (1023 : Int) := zpow_le_zpow_right₀ one_le_two (by decide)
    _ ≤ ceiling := two_zpow_le_ceiling

theorem within_ofNat {n : Nat} (few : n < 32) : Within (Scalar.ofNat n) (2 ^ 5) := by
  have exponents : ∀ n < 32, ((Scalar.ofNat n : Float).toBits.toNat >>> 52) % 2048 < 1023 + 5 := by
    decide +kernel
  exact within_of_exponent 5 (by decide) (exponents n few)

/-- A small product does not make what is added to it infinite. -/
theorem isFinite_fused_small {x y z : Float} {m n : Nat} (hx : Within x (2 ^ m))
    (hy : Within y (2 ^ n)) (few : m + n < 970) (hz : z.isFinite = true) :
    (fused x y z).isFinite = true := by
  refine hx.isFinite_fused hy ?_ hz
  rw [← pow_add, ← zpow_natCast]
  exact zpow_lt_zpow_right₀ one_lt_two (by omega)

/-- The time in which a head gets from one point of a path to the next. -/
theorem within_stepTime (severity : UInt8) :
    Within (travelTime severity / Scalar.ofNat Path.usualSteps) (2 ^ 12) := by
  have exponents : ∀ k < 10, ((fused (Scalar.ofNat k) 120.0 1200.0 /
      Scalar.ofNat Path.usualSteps : Float).toBits.toNat >>> 52) % 2048 < 1023 + 12 := by
    decide +kernel
  refine within_of_exponent 12 (by decide) (exponents _ ?_)
  have most : Event.maxSeverity.toNat = 10 := rfl
  rw [most]
  split
  · decide
  · next some =>
    have some : ¬ severity.toNat < 1 := some
    rw [UInt8.toNat_min, most]
    omega

theorem Event.clampedSeverity_lt (e : Event) : e.clampedSeverity.toNat < 32 := by
  unfold clampedSeverity
  split
  · decide
  · split
    · decide
    · next most =>
      have most : ¬ (10 : Nat) < e.severity.toNat := most
      omega

/-- A place that is drawn has been found finite. -/
theorem Endpoint.isFinite_of_coordinates {e : Endpoint} {p : LonLat Float}
    (placed : e.coordinates = some p) : p.isFinite = true := by
  obtain ⟨g, -, placed⟩ := Option.bind_eq_some_iff.mp placed
  unfold Geo.coordinates at placed
  split at placed
  · rw [Option.ite_none_right_eq_some] at placed
    obtain ⟨finite, same⟩ := placed
    rw [← Option.some.inj same]
    exact finite
  · cases placed

namespace VisibleEvent

variable {v : VisibleEvent Float}

/-! ## What is drawn for an event -/

/-- Both ends of an event that is drawn are finite. -/
theorem isFinite_of_mem_visible {es : List Event} {f : Filter} {now : Millis}
    (mem : v ∈ visible es f now) : v.src.isFinite = true ∧ v.dst.isFinite = true := by
  have survivor : v ∈ survivors es f now := List.mem_of_mem_drop mem
  obtain ⟨e, -, drawn⟩ := List.mem_filterMap.mp survivor
  unfold of? at drawn
  split at drawn
  · next src dst source target =>
    rw [Option.ite_none_right_eq_some] at drawn
    obtain ⟨-, same⟩ := drawn
    rw [← Option.some.inj same]
    exact ⟨Endpoint.isFinite_of_coordinates source, Endpoint.isFinite_of_coordinates target⟩
  · cases drawn

theorem isFinite_width (v : VisibleEvent Float) : v.arc.width.isFinite = true := by
  have few : (v.severity / 2).toNat < 32 := by
    have := v.event.clampedSeverity_lt
    have half : (v.severity / 2).toNat = v.event.clampedSeverity.toNat / 2 := rfl
    omega
  obtain ⟨q, stands, -⟩ := within_ofNat few
  have small : |(1 : ℚ)| < 2 ^ (970 : Int) := by
    rw [abs_one]
    exact one_lt_zpow₀ one_lt_two (by decide)
  obtain ⟨w, sum⟩ := stands.exists_add stands_one (.inr small)
  exact sum.isFinite

theorem isFinite_timestamps (sine : Float → Float) (v : VisibleEvent Float) :
    ∀ x ∈ (@trip Float (.withSine sine) v).timestamps, x.isFinite = true := by
  intro x mem
  obtain ⟨i, le, rfl⟩ := List.mem_map.mp mem
  have length := @Path.length_points Float (.withSine sine) v.src v.dst Path.usualSteps
  rw [List.mem_range, length] at le
  have few : i < 32 := le.trans (by decide)
  exact isFinite_fused_small (within_ofNat few) (within_stepTime v.severity) (by decide)
    (isFinite_ofInt _)

theorem isFinite_radius (v : VisibleEvent Float) : v.marker.radius.isFinite = true :=
  isFinite_fused_small (within_ofNat v.event.clampedSeverity_lt)
    (within_of_exponent 12 (by decide) (by decide +kernel) : Within 2200.0 (2 ^ 12)) (by decide)
    (by decide)

theorem isFinite_pulse {now : Millis} {p : Pulse Float} (rings : v.pulse? now = some p) :
    p.position = v.dst ∧ p.radius.isFinite = true := by
  unfold pulse? at rings
  dsimp only at rings
  rw [Option.ite_none_right_eq_some] at rings
  obtain ⟨-, same⟩ := rings
  rw [← Option.some.inj same]
  refine ⟨rfl, ?_⟩
  have one : Within 1.0 1 := ⟨1, stands_one, abs_one.le⟩
  have left (age : Float) : Within (1.0 - Scalar.clamp01 age) (2 ^ 2) :=
    one.sub (isShare_clamp01 age).within 2 (by decide) (by norm_num)
  exact isFinite_fused_small (one.sub (left _) 3 (by decide) (by norm_num))
    (within_of_exponent 16 (by decide) (by decide +kernel) : Within 55000.0 (2 ^ 16)) (by decide)
    (by decide)

end VisibleEvent

namespace Frame

/-! ## Frames -/

/-- What is finite in a frame. -/
structure IsSound (frame : Frame Float) : Prop where
  arcs : ∀ a ∈ frame.arcs,
    a.source.isFinite = true ∧ a.target.isFinite = true ∧ a.width.isFinite = true
  timestamps : ∀ t ∈ frame.trips, (∀ x ∈ t.timestamps, x.isFinite = true) ∧ t.trail.isFinite = true
  pulses : ∀ p ∈ frame.pulses, p.position.isFinite = true ∧ p.radius.isFinite = true
  markers : ∀ m ∈ frame.markers, m.position.isFinite = true ∧ m.radius.isFinite = true
  /-- A path is finite as far as its last point is. -/
  paths : ∀ t ∈ frame.trips,
    (∀ p ∈ t.path, p.isFinite = true) ↔ ∀ p ∈ t.path.getLast?, p.isFinite = true
  /-- A path between moderate coordinates is finite. -/
  moderate : ∀ drawn ∈ frame.arcs.zip frame.trips,
    Path.IsModerate drawn.1.source.lon ∧ Path.IsModerate drawn.1.source.lat →
    Path.IsModerate drawn.1.target.lon ∧ Path.IsModerate drawn.1.target.lat →
    ∀ p ∈ drawn.2.path, p.isFinite = true

section

variable (sine : Float → Float) (s : Snapshot) (f : Filter) (now : Millis)

/-! A sine bends paths, and nothing else depends on it. -/

theorem visible_withSine : @VisibleEvent.visible Float (.withSine sine) s.events f now =
    VisibleEvent.visible s.events f now :=
  rfl

theorem arcs_bent : (bent sine s f now).arcs =
    (VisibleEvent.visible s.events f now).map VisibleEvent.arc := by
  have arc : @VisibleEvent.arc Float (.withSine sine) = VisibleEvent.arc := rfl
  unfold bent Frame.of
  dsimp only
  rw [visible_withSine, arc]

theorem trips_bent : (bent sine s f now).trips =
    (VisibleEvent.visible s.events f now).map (@VisibleEvent.trip Float (.withSine sine)) := by
  unfold bent Frame.of
  dsimp only
  rw [visible_withSine]

theorem pulses_bent : (bent sine s f now).pulses =
    (VisibleEvent.newest pulseCount (VisibleEvent.visible s.events f now)).filterMap
      (VisibleEvent.pulse? · now) := by
  have pulse : @VisibleEvent.pulse? Float (.withSine sine) = VisibleEvent.pulse? := rfl
  unfold bent Frame.of
  dsimp only
  rw [visible_withSine, pulse]

theorem markers_bent : (bent sine s f now).markers =
    (VisibleEvent.newest markerCount (VisibleEvent.visible s.events f now)).map
      VisibleEvent.marker := by
  have marker : @VisibleEvent.marker Float (.withSine sine) = VisibleEvent.marker := rfl
  unfold bent Frame.of
  dsimp only
  rw [visible_withSine, marker]

end

/-- **Frames are finite but for paths between coordinates too far apart.** -/
theorem isSound_bent {sine : Float → Float} (range : SineRange sine) (s : Snapshot) (f : Filter)
    (now : Millis) : (bent sine s f now).IsSound := by
  have ends {v : VisibleEvent Float} (mem : v ∈ VisibleEvent.visible s.events f now) :=
    VisibleEvent.isFinite_of_mem_visible mem
  constructor
  case arcs =>
    rw [arcs_bent]
    intro a mem
    obtain ⟨v, drawn, rfl⟩ := List.mem_map.mp mem
    exact ⟨(ends drawn).1, (ends drawn).2, v.isFinite_width⟩
  case timestamps =>
    rw [trips_bent]
    intro t mem
    obtain ⟨v, -, rfl⟩ := List.mem_map.mp mem
    have trail : (800.0 : Float).isFinite = true := by decide
    exact ⟨v.isFinite_timestamps sine, trail⟩
  case pulses =>
    rw [pulses_bent]
    intro p mem
    obtain ⟨v, drawn, rings⟩ := List.mem_filterMap.mp mem
    obtain ⟨target, radius⟩ := VisibleEvent.isFinite_pulse rings
    rw [target]
    exact ⟨(ends (List.mem_of_mem_drop drawn)).2, radius⟩
  case markers =>
    rw [markers_bent]
    intro m mem
    obtain ⟨v, drawn, rfl⟩ := List.mem_map.mp mem
    exact ⟨(ends (List.mem_of_mem_drop drawn)).2, v.isFinite_radius⟩
  case paths =>
    rw [trips_bent]
    intro t mem
    obtain ⟨v, drawn, rfl⟩ := List.mem_map.mp mem
    exact Path.isFinite_iff_last range (ends drawn).1
  case moderate =>
    rw [arcs_bent, trips_bent, List.zip_map']
    intro drawn mem source target
    obtain ⟨v, -, rfl⟩ := List.mem_map.mp mem
    exact Path.isFinite_moderate range source target

/-- One event between two places on the equator. -/
def onEquator (source target : Float) : Snapshot where
  events := [{ Client.numbered 1 with
    src := { Endpoint.unknown with geo := some ⟨some 0, some source, none, none, none⟩ }
    dst := { Endpoint.unknown with geo := some ⟨some 0, some target, none, none, none⟩ } }]
  aggregate := none

theorem isSound_bent_equator :
    SineRange (fun _ => 1.0) ∧
      (bent (fun _ => 1.0) (onEquator 0 45) .initial 1).trips.length = 1 ∧
      (bent (fun _ => 1.0) (onEquator 0 45) .initial 1).IsSound := by
  have one : (0.0 : Float) ≤ 1.0 ∧ (1.0 : Float) ≤ 1.0 := by decide
  have range : SineRange fun _ => 1.0 := fun _ _ _ => one
  exact ⟨range, by decide +kernel, isSound_bent range _ _ _⟩

/-- **Not every path is finite.** From far in the west to far in the east there is no
finite distance, and so nothing on the way is finite. -/
theorem path_not_finite :
    ¬ ∀ (s : Snapshot) (f : Filter) (now : Millis), ∀ t ∈ (of s f now : Frame Float).trips,
      ∀ p ∈ t.path, p.isFinite = true := by
  intro all
  have far : ((of (onEquator (-1.7e308) 1.7e308) .initial 1 : Frame Float).trips.any fun t =>
      t.path.any fun p => !p.lon.isFinite) = true := by decide +kernel
  obtain ⟨t, trip, some⟩ := List.any_eq_true.mp far
  obtain ⟨p, point, infinite⟩ := List.any_eq_true.mp some
  have finite := all _ _ _ t trip p point
  rw [LonLat.isFinite, Bool.and_eq_true] at finite
  rw [finite.1] at infinite
  cases infinite

end Frame

end AttackMap
