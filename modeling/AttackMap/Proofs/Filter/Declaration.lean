import AttackMap.Directive
import AttackMap.Proofs.Text.Trimming

/-!
# What a filter declares

A filter holds a set of kinds and a country as it was entered; the server is
told a list of kinds and a country without blanks around it. Nothing that
decides about an event is lost by that: a filter put together from what was
told lets the same events through, and would tell the same again
(`declaration_agrees`).

The country is where the two could part, since it is trimmed once when it is
declared and again when it is asked for, and the country of an event when
the two are compared. `matchesCountry_iff` says what all this trimming comes
to: a country that was entered matches if there is nothing in it, or if it
is alike to the event's.
-/

namespace AttackMap

/-- The position of a kind in the order of display. -/
def AttackKind.place (k : AttackKind) : Nat := AttackKind.all.idxOf k

/-- The members of a set are listed in the order of display, each once. -/
theorem KindSet.ascending_toList (s : KindSet) :
    s.toList.Pairwise fun a b => a.place < b.place := by
  have all : AttackKind.all.Pairwise fun a b => a.place < b.place := by decide
  exact all.filter _

namespace Filter

open Text

/-! ## The country -/

/-- A country is asked for if something is left of the text without the
blanks around it. -/
theorem unlessBlank_eq_some_iff {s c : String} :
    unlessBlank s = some c ↔ c = trim s ∧ Bare c.toList := by
  have filled : (trim s).isEmpty = false ↔ Bare (trim s).toList := by
    rw [← Bool.not_eq_true, String.isEmpty_iff, ← String.toList_eq_nil_iff, toList_trim]
    exact ⟨(eq_nil_or_bare_trimmed _).resolve_left, Bare.filled⟩
  unfold unlessBlank
  dsimp only
  by_cases empty : (trim s).isEmpty = true
  · rw [if_pos empty]
    refine iff_of_false nofun ?_
    rintro ⟨rfl, bare⟩
    rw [filled.mpr bare] at empty
    cases empty
  · rw [if_neg empty, Option.some.injEq]
    constructor
    · rintro rfl
      exact ⟨rfl, filled.mp (Bool.not_eq_true _ |>.mp empty)⟩
    · rintro ⟨rfl, -⟩
      rfl

theorem unlessBlank_eq_none_iff {s : String} : unlessBlank s = none ↔ AllBlank s.toList := by
  rw [← trimmed_eq_nil_iff, ← toList_trim, String.toList_eq_nil_iff, ← String.isEmpty_iff,
    unlessBlank]
  simp

/-- A country without blanks around it is asked for as it is. -/
theorem unlessBlank_of_bare {c : String} (bare : Bare c.toList) : unlessBlank c = some c := by
  rw [unlessBlank_eq_some_iff]
  refine ⟨?_, bare⟩
  rw [← String.toList_inj, toList_trim, bare.trimmed_eq]

theorem bare_of_mem_country {f : Filter} {c : String} (h : c ∈ f.country) : Bare c.toList := by
  obtain ⟨s, -, told⟩ := Option.bind_eq_some_iff.mp h
  exact (unlessBlank_eq_some_iff.mp told).2

/-- The country asked for, entered anew, is asked for again. -/
theorem country_bind_unlessBlank (f : Filter) : f.country.bind unlessBlank = f.country := by
  cases told : f.country with
  | none => rfl
  | some c => rw [Option.bind_some, unlessBlank_of_bare (bare_of_mem_country told)]

/-- An event matches if the country entered, if there is one, is blank or
alike to that of the target. -/
theorem matchesCountry_iff {f : Filter} {e : Event} :
    f.matchesCountry e = true ↔ ∀ wanted ∈ f.entered,
      AllBlank wanted.toList ∨ ∃ actual ∈ e.dst.country, Alike actual wanted := by
  unfold matchesCountry country
  cases f.entered with
  | none => simp
  | some wanted =>
    rw [Option.bind_some]
    cases told : unlessBlank wanted with
    | none => simp [unlessBlank_eq_none_iff.mp told]
    | some c =>
      have filled : ¬ AllBlank wanted.toList := by
        rw [← unlessBlank_eq_none_iff, told]
        exact nofun
      obtain ⟨rfl, -⟩ := unlessBlank_eq_some_iff.mp told
      simp [filled, alike_iff, Option.any_eq_true]

/-- Countries that are alike make no difference. -/
theorem matchesCountry_of_alike {f g : Filter} {e d : Event}
    (entered : Option.Rel Alike f.entered g.entered)
    (target : Option.Rel Alike e.dst.country d.dst.country)
    (h : f.matchesCountry e = true) : g.matchesCountry d = true := by
  rw [matchesCountry_iff] at h ⊢
  intro wanted' mem
  rw [Option.mem_def] at mem
  rw [mem] at entered
  generalize asked : f.entered = wanted at entered
  cases entered with
  | some same =>
    rcases h _ asked with blank | ⟨actual, given, alike⟩
    · exact .inl (same.blank blank)
    · rw [Option.mem_def] at given
      rw [given] at target
      generalize met : d.dst.country = actual' at target
      cases target with
      | some near => exact .inr ⟨_, rfl, near.symm.trans (alike.trans same)⟩

/-! ## What is told -/

/-- **A filter declares what it does**, whatever has been entered. What a
tick tells of a filter is put together to a filter that

* lets through the same events, by kind, severity and country;
* lists exactly the kinds shown, in the order of display and each once;
* asks for no country, or for one with something in it and without blanks
  around it;
* would tell the same again.

And a country, that of a filter or that of an event, counts only up to the
blanks around it and the case of ASCII letters. -/
theorem declaration_agrees (f : Filter) (load : LoadReport) :
    ∃ window least majors kinds country,
      reports f load = [load.telemetry, .setFilters window least majors kinds country] ∧
      let told : Filter := ⟨window, least, .ofList kinds, majors, country⟩
      (∀ e, told.admits e = f.admits e ∧ told.matchesCountry e = f.matchesCountry e) ∧
      (kinds.Pairwise (fun a b => a.place < b.place) ∧ ∀ k, k ∈ kinds ↔ k ∈ f.enabled) ∧
      (∀ c ∈ country, Bare c.toList) ∧
      (∀ again, reports told again =
        [again.telemetry, .setFilters window least majors kinds country]) ∧
      ∀ (g : Filter) (e d : Event), Option.Rel Alike f.entered g.entered →
        Option.Rel Alike e.dst.country d.dst.country →
        f.matchesCountry e = g.matchesCountry d := by
  refine ⟨f.window, f.minSeverity, f.majorOnly, f.kinds, f.country, rfl, ?_⟩
  intro told
  have kinds : KindSet.ofList f.kinds = f.enabled := KindSet.ofList_toList f.enabled
  have enabled : told.enabled = f.enabled := kinds
  have country : told.country = f.country := country_bind_unlessBlank f
  refine ⟨fun e => ⟨?_, ?_⟩, ⟨f.enabled.ascending_toList, fun k => mem_kinds⟩,
    fun c mem => bare_of_mem_country mem, fun again => ?_, fun g e d entered target => ?_⟩
  · rw [admits, enabled]
    rfl
  · rw [matchesCountry, country, matchesCountry]
  · rw [reports, declare, Filter.kinds, enabled, country]
    rfl
  · rw [Bool.eq_iff_iff]
    exact ⟨matchesCountry_of_alike entered target,
      matchesCountry_of_alike (Alike.rel_symm entered) (Alike.rel_symm target)⟩

/-- A country in small letters and among blanks, one of them an ideographic
space, is the country in capitals. -/
theorem declaration_agrees_padded :
    ∃ f g : Filter, f.entered = some " fr\u3000" ∧ g.entered = some "FR" ∧
      ∀ e, f.matchesCountry e = g.matchesCountry e := by
  obtain ⟨f, asks⟩ : ∃ f : Filter, f.entered = some " fr\u3000" :=
    ⟨{ initial with entered := _ }, rfl⟩
  obtain ⟨g, asks'⟩ : ∃ g : Filter, g.entered = some "FR" := ⟨{ initial with entered := _ }, rfl⟩
  refine ⟨f, g, asks, asks', fun e => ?_⟩
  have alike : Alike " fr\u3000" "FR" := by
    refine ⟨['f', 'r'], ['F', 'R'], ⟨[' '], ['\u3000'], by decide, by decide, by decide⟩,
      ⟨[], [], by decide, by decide, by decide⟩, by decide⟩
  have target : Option.Rel Alike e.dst.country e.dst.country := by
    cases e.dst.country with
    | none => exact .none
    | some country => exact .some (.refl country)
  obtain ⟨_, _, _, _, _, _, _, _, _, _, depends⟩ := declaration_agrees f ⟨60.0, 0, 0⟩
  apply depends g e e _ target
  rw [asks, asks']
  exact .some alike

end Filter

end AttackMap
