import AttackMap.Proofs.Client.Repetition
import AttackMap.Proofs.Frame.Exact
import AttackMap.Proofs.Frame.Survivors

/-!
# Decay

What is drawn of an event only fades. Its life is a share of its lifetime,
so with exact numbers it does not rise as the clock goes on, whatever has
been held at the ends of the words on the way, and no colour that is made of
it becomes more opaque (`Fades`). When it is used up the event leaves the
map and does not come back.
-/

namespace AttackMap

/-- The time left does not grow. -/
theorem Event.remaining_anti (e : Event) {now later : Millis} (order : now ≤ later) :
    (e.remaining later).toInt ≤ (e.remaining now).toInt := by
  have order := Int64.le_iff_toInt_le.mp order
  rw [remaining, remaining, Millis.toInt_minus, Millis.toInt_minus]
  omega

theorem Event.lifetime_cast_pos (e : Event) : (0 : ℚ) < e.lifetime.toInt :=
  Int.cast_pos.mpr e.lifetime_pos

/-- The dead stay dead. -/
theorem Event.isAlive_anti (e : Event) {now later : Millis} (order : now ≤ later)
    (alive : e.isAlive later = true) : e.isAlive now = true := by
  rw [isAlive_iff_remaining_pos] at alive ⊢
  exact alive.trans_le (e.remaining_anti order)

section

variable [Scalar.Sine]

namespace Event

variable (e : Event) {now later : Millis}

/-- The share of its lifetime that an event has left. -/
def share (e : Event) (now : Millis) : ℚ := (e.remaining now).toInt / e.lifetime.toInt

theorem life_exact (now : Millis) : (e.life now : ℚ) = max 0 (min 1 (e.share now)) :=
  Scalar.clamp_exact (e.share now)

theorem life_anti (order : now ≤ later) : (e.life later : ℚ) ≤ e.life now := by
  refine Scalar.clamp_mono (div_le_div_of_nonneg_right ?_ e.lifetime_cast_pos.le)
  exact Int.cast_le.mpr (e.remaining_anti order)

theorem life_le_one (now : Millis) : (e.life now : ℚ) ≤ 1 := by
  rw [life_exact]
  exact max_le zero_le_one (min_le_left ..)

theorem life_pos_iff : (0 : ℚ) < e.life now ↔ e.isAlive now = true := by
  rw [life_exact, lt_max_iff, lt_min_iff, isAlive_iff_remaining_pos, share,
    div_pos_iff_of_pos_right e.lifetime_cast_pos, Int.cast_pos]
  simp only [lt_irrefl, zero_lt_one, true_and, false_or]

/-- An event is as good as new while it has at least its lifetime left. -/
theorem life_eq_one_iff : (e.life now : ℚ) = 1 ↔ e.lifetime ≤ e.expiresAt.minus now := by
  have whole : 1 ≤ e.share now ↔ e.lifetime ≤ e.remaining now := by
    rw [share, one_le_div e.lifetime_cast_pos, Int.cast_le, Int64.le_iff_toInt_le]
  rw [life_exact, ← remaining, ← whole]
  constructor
  · intro new
    by_contra less
    rw [not_le] at less
    have below : max 0 (min 1 (e.share now)) < 1 :=
      max_lt zero_lt_one ((min_le_right ..).trans_lt less)
    exact below.ne new
  · intro new
    rw [min_eq_left new, max_eq_right zero_le_one]

end Event

namespace VisibleEvent

variable {es : List Event} {f : Filter} {now later : Millis}

/-! ## Survivors -/

/-- Whoever draws with exact numbers draws the same events. -/
theorem map_event_survivors_exact (es : List Event) (f : Filter) (now : Millis) :
    (survivors es f now : List (VisibleEvent ℚ)).map (·.event) =
      (survivors es f now : List (VisibleEvent Float)).map (·.event) := by
  rw [map_event_survivors]
  refine map_event_survivors_of (fun e => ?_) es f
  rw [Scalar.literal_zero, Bool.eq_iff_iff, Scalar.less_iff]
  exact e.life_pos_iff

/-- Later on some of the survivors are left. -/
theorem survivors_sublist (es : List Event) (f : Filter) (order : now ≤ later) :
    ((survivors es f later : List (VisibleEvent ℚ)).map (·.event)).Sublist
      ((survivors es f now : List (VisibleEvent ℚ)).map (·.event)) := by
  rw [map_event_survivors_exact, map_event_survivors, map_event_survivors_exact,
    map_event_survivors]
  refine List.monotone_filter_right es fun e drawn => ?_
  simp only [isDrawable, Bool.and_eq_true] at drawn ⊢
  obtain ⟨⟨places, alive⟩, admitted⟩ := drawn
  exact ⟨⟨places, e.isAlive_anti order alive⟩, admitted⟩

theorem of?_eq_some_iff {e : Event} {v : VisibleEvent ℚ} :
    of? e now = some v ↔ ∃ src ∈ e.src.coordinates, ∃ dst ∈ e.dst.coordinates,
      e.isAlive now = true ∧ ⟨e, src.toScalar, dst.toScalar, e.life now⟩ = v := by
  unfold of?
  cases e.src.coordinates with
  | none => exact iff_of_false nofun nofun
  | some src =>
    cases e.dst.coordinates with
    | none => exact iff_of_false nofun nofun
    | some dst =>
      simp only [Scalar.literal_zero, Scalar.less_iff, e.life_pos_iff, Option.mem_some_iff,
        exists_eq_left', Option.ite_none_right_eq_some, Option.some_inj]

/-- What has been made of an event that is drawn. -/
theorem mem_survivors {v : VisibleEvent ℚ} (mem : v ∈ survivors es f now) :
    v.event.isAlive now = true ∧ v.life = v.event.life now := by
  obtain ⟨e, -, drawn⟩ := List.mem_filterMap.mp mem
  obtain ⟨src, -, dst, -, alive, rfl⟩ := of?_eq_some_iff.mp drawn
  exact ⟨alive, rfl⟩

/-! ## What is drawn of them -/

/-- An event with some of its life left. -/
structure Lives (v : VisibleEvent ℚ) (now : Millis) : Prop where
  pos : 0 < v.life
  le_one : v.life ≤ 1
  /-- It is as good as new while it has at least its lifetime left. -/
  new_iff : v.life = 1 ↔ v.event.lifetime ≤ v.event.expiresAt.minus now

/-- An event and what is left of it later on. -/
structure Fades (v later : VisibleEvent ℚ) : Prop where
  life : later.life ≤ v.life
  source : later.arc.sourceColor.alpha ≤ v.arc.sourceColor.alpha
  target : later.arc.targetColor.alpha ≤ v.arc.targetColor.alpha
  trip : later.trip.color.alpha ≤ v.trip.color.alpha
  marker : later.marker.fill.alpha ≤ v.marker.fill.alpha

theorem lives_of_mem_survivors {v : VisibleEvent ℚ} (mem : v ∈ survivors es f now) :
    v.Lives now := by
  obtain ⟨alive, life⟩ := mem_survivors mem
  exact ⟨life ▸ v.event.life_pos_iff.mpr alive, life ▸ v.event.life_le_one now,
    life ▸ v.event.life_eq_one_iff⟩

/-- Less life makes everything fainter. -/
theorem fades_of_life_le {v later : VisibleEvent ℚ} (life : later.life ≤ v.life) :
    v.Fades later := by
  have part {x : ℚ} (nonneg : 0 ≤ x) : x * later.life ≤ x * v.life :=
    mul_le_mul_of_nonneg_left life nonneg
  constructor
  case life => exact life
  case source => exact Rgba.alpha_ofSeverity_mono _ _ (part (by norm_num [Scalar.literal]))
  case target => exact Rgba.alpha_ofSeverity_mono _ _ (part (by norm_num [Scalar.literal]))
  case trip => exact Rgba.alpha_ofSeverity_mono _ _ life
  case marker => exact Rgba.alpha_ofSeverity_mono _ _ (part (by norm_num [Scalar.literal]))

/-- **What is drawn of an event only fades**, and what has gone does not come back. -/
theorem decays (es : List Event) (f : Filter) (order : now ≤ later) :
    ((survivors es f later : List (VisibleEvent ℚ)).map (·.event)).Sublist
        ((survivors es f now : List (VisibleEvent ℚ)).map (·.event)) ∧
      ∀ v ∈ (survivors es f now : List (VisibleEvent ℚ)),
        ∀ v' ∈ (survivors es f later : List (VisibleEvent ℚ)), v.event = v'.event →
          v.Lives now ∧ v'.Lives later ∧ v.Fades v' := by
  refine ⟨survivors_sublist es f order, fun v mem v' mem' same => ?_⟩
  refine ⟨lives_of_mem_survivors mem, lives_of_mem_survivors mem', fades_of_life_le ?_⟩
  rw [(mem_survivors mem).2, (mem_survivors mem').2, same]
  exact v'.event.life_anti order

end VisibleEvent

end

namespace VisibleEvent

/-- An event between two places, with ten seconds to live. -/
def flash : Event :=
  { Client.numbered 1 with
    src := { Endpoint.unknown with geo := some ⟨some 0, some 0, none, none, none⟩ }
    dst := { Endpoint.unknown with geo := some ⟨some 0, some 45, none, none, none⟩ } }

/-- It as it is drawn. -/
def flashAt [Scalar.Sine] (now : Millis) : VisibleEvent ℚ :=
  ⟨flash, LonLat.toScalar ⟨0, 0⟩, LonLat.toScalar ⟨45, 0⟩, flash.life now⟩

theorem decays_flash :
    letI := Scalar.Sine.flat
    (2500 : Millis) ≤ 5000 ∧ flashAt 2500 ∈ survivors [flash] .initial 2500 ∧
      flashAt 5000 ∈ survivors [flash] .initial 5000 ∧ (flashAt 2500).Fades (flashAt 5000) := by
  let _ := Scalar.Sine.flat
  have order : (2500 : Millis) ≤ 5000 := by decide
  have mem (now : Millis) (alive : flash.isAlive now = true) :
      flashAt now ∈ survivors [flash] .initial now := by
    have admitted : flash ∈ [flash].filter Filter.initial.admits := by decide
    refine List.mem_filterMap.mpr ⟨flash, admitted, of?_eq_some_iff.mpr ?_⟩
    exact ⟨_, by decide +kernel, _, by decide +kernel, alive, rfl⟩
  have sooner := mem 2500 (by decide)
  have later := mem 5000 (by decide)
  exact ⟨order, sooner, later,
    ((decays [flash] .initial order).2 _ sooner _ later rfl).2.2⟩

end VisibleEvent

end AttackMap
