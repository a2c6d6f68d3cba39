import SongBundle.Proofs.Battle.Playing
import SongBundle.Proofs.Word

/-!
# The arithmetic of battles

A battle is compiled with arithmetic on words, which goes wrong where a result is no word.  The
checked run `compile?` is the same computation with checked arithmetic: it gives up as soon as a
length, the measure before an interval or the measure after one is no word.  It never does, for marks
that are rejected as little as for others, and the steps of a battle have the lengths that they seem
to have.

* `Reached.advance?_eq` is the checked step after marks in ascending order, and
  `Reached.foldlM_advance?_eq` the run.
* `gaps?_eq` says the same of the measures next to the intervals.
* `compile_stays_in_words` puts these together.
-/

set_option autoImplicit false

namespace SongBundle

/-- The length of a range is computed within the words, and it is the number of measures from the
first to the last, of which there is one at least. -/
structure MeasureRange.Exact (r : MeasureRange) : Prop where
  length?_eq : r.length? = some r.length
  add_length : r.first.toNat + r.length.toNat = r.last.toNat + 1
  pos : 1 ≤ r.length

/-- A range with ordered ends below the greatest word has its exact length. -/
theorem MeasureRange.exact_of_lt {r : MeasureRange} (hle : r.first ≤ r.last)
    (hlt : r.last.toNat + 1 < UInt32.size) : r.Exact := by
  have hends := UInt32.le_iff_toNat_le.1 hle
  have hlength := Battle.toNat_length hle hlt
  refine ⟨?_, by omega, UInt32.le_iff_toNat_le.2 (hlength ▸ Nat.le_add_left _ _)⟩
  rw [length?, minus?_of_le hle, Option.bind_eq_bind, Option.bind_some]
  refine plus?_of_lt ?_
  rw [UInt32.toNat_sub_of_le _ _ hle]
  exact Nat.lt_of_le_of_lt (Nat.succ_le_succ (Nat.sub_le _ _)) hlt

namespace Battle

/-! ## Checked runs -/

namespace Progress

/-- A solo or minigame ends; the length of a minigame is computed by checked arithmetic. -/
def closeAt? (p : Progress) (kind : Kind) (measure : UInt32) : ExceptT Fault Option Progress :=
  match p.current with
  | some (other, first) =>
    if other ≠ kind then throw (.neverOpened kind measure)
    else do
      let range : MeasureRange := ⟨first, measure⟩
      if kind = .minigame then
        let length ← range.length?
        if length < leastMinigame then throw (.shortMinigame first length)
      return { p with current := none, ended := ⟨kind, range⟩ :: p.ended }
  | none => throw (.neverOpened kind measure)

/-- Takes the next mark by checked arithmetic. -/
def advance? (last : UInt32) (p : Progress) (e : Event) : ExceptT Fault Option Progress :=
  if last < e.measure then throw (.pastEnd e.mark e.measure last)
  else
    match e.mark with
    | .battleStart => ofExcept (p.start e.measure)
    | .opens kind => ofExcept (p.openAt kind e.measure)
    | .closes kind => p.closeAt? kind e.measure

end Progress

/-- The ranges that ascending intervals leave free, by checked arithmetic. -/
def gaps? (last : UInt32) : UInt32 → List Interval → Option (List MeasureRange)
  | next, [] => some (if next ≤ last then [⟨next, last⟩] else [])
  | next, i :: is => do
    if next < i.range.first then
      let before ← minus? i.range.first 1
      let after ← plus? i.range.last 1
      let rest ← gaps? last after is
      return ⟨next, before⟩ :: rest
    else
      let after ← plus? i.range.last 1
      gaps? last after is

/-- The steps of a battle by checked arithmetic. -/
def compile? (events : List Event) (total : UInt32) : ExceptT Fault Option (List Step) := do
  if total = 0 then throw .noMeasures
  let last ← minus? total 1
  let progress ← (events.mergeSort Event.before).foldlM (Progress.advance? last) .initial
  let (start, intervals) ← ofExcept progress.finish
  let ranges ← gaps? last 0 intervals
  return ranges.map (bridge start) ++ intervals.map Interval.step

/-! ## Checked computations -/

section

variable {ε α β : Type}

theorem run_ofExcept (y : Except ε α) : (ofExcept y : ExceptT ε Option α).run = some y := by
  cases y <;> rfl

@[simp] theorem liftM_some_bind (a : α) (f : α → ExceptT ε Option β) :
    (liftM (some a) >>= f) = f a := rfl

/-- A checked computation agrees with an unchecked one if its parts do. -/
theorem run_bind_eq {x : ExceptT ε Option α} {y : Except ε α} {f : α → ExceptT ε Option β}
    {g : α → Except ε β} (hx : x.run = some y)
    (hf : ∀ a, y = .ok a → (f a).run = some (g a)) : (x >>= f).run = some (y >>= g) := by
  rw [ExceptT.run_bind, hx]
  cases y with
  | error e => rfl
  | ok a => exact hf a rfl

end

/-! ## Marks -/

section

variable {p : Progress} {kind : Kind} {measure last : UInt32} {marks rest : List Event} {e : Event}

/-- Ending an interval computes no length but that of the interval. -/
theorem closeAt?_eq (h : ∀ first, p.current = some (kind, first) →
      (MeasureRange.mk first measure).length? = some (MeasureRange.mk first measure).length) :
    (p.closeAt? kind measure).run = some (p.closeAt kind measure) := by
  obtain ⟨started, current, ended⟩ := p
  cases current with
  | none => rfl
  | some current =>
    obtain ⟨other, first⟩ := current
    rw [Progress.closeAt?, Progress.closeAt]
    by_cases hkind : other = kind
    · subst hkind
      have hlength := h first rfl
      by_cases hminigame : other = .minigame
      · by_cases hshort : (MeasureRange.mk first measure).length < leastMinigame
        · simp [hminigame, hlength, hshort]
        · simp [hminigame, hlength, hshort]
      · simp [hminigame]
    · simp [hkind]

/-- What is under way was opened by one of the marks so far. -/
theorem Reached.mem_of_current {first : UInt32} (h : Reached last marks p)
    (hcurrent : p.current = some (kind, first)) : ⟨first, .opens kind⟩ ∈ marks := by
  cases h with
  | initial | between => exact nomatch hcurrent
  | during =>
    obtain ⟨rfl, rfl⟩ := Prod.mk.inj (Option.some.inj hcurrent)
    simp

/-- The arithmetic for one more mark, no earlier than those before it, stays in the words. -/
theorem Reached.advance?_eq (h : Reached last marks p) (hlast : last.toNat + 1 < UInt32.size)
    (hle : ∀ a ∈ marks, a.measure ≤ e.measure) :
    (p.advance? last e).run = some (p.advance last e) := by
  obtain ⟨measure, mark⟩ := e
  rw [Progress.advance?, Progress.advance]
  split
  · rfl
  · rename_i hinside
    cases mark with
    | battleStart => exact run_ofExcept _
    | opens kind => exact run_ofExcept _
    | closes kind =>
      refine closeAt?_eq fun first hcurrent ↦ (MeasureRange.exact_of_lt ?_ ?_).length?_eq
      · exact hle ⟨first, .opens kind⟩ (h.mem_of_current hcurrent)
      · exact succ_lt_size_of_le (UInt32.not_lt.1 hinside) hlast

/-- The arithmetic for marks in ascending order stays in the words, whether all of them are taken or
one is rejected. -/
theorem Reached.foldlM_advance?_eq (h : Reached last marks p)
    (hlast : last.toNat + 1 < UInt32.size)
    (hsorted : (marks ++ rest).Pairwise fun a b ↦ a.before b = true) :
    (rest.foldlM (Progress.advance? last) p).run = some (rest.foldlM (Progress.advance last) p) := by
  induction rest generalizing marks p with
  | nil => rfl
  | cons e rest ih =>
    have hle : ∀ a ∈ marks, a.measure ≤ e.measure := fun a ha ↦
      Event.measure_le_of_before ((List.pairwise_append.1 hsorted).2.2 a ha e (by simp))
    rw [List.append_cons] at hsorted
    rw [List.foldlM_cons, List.foldlM_cons]
    exact run_bind_eq (h.advance?_eq hlast hle) fun q hq ↦ ih (h.advance hlast hle hq) hsorted

end

/-! ## The measures next to intervals -/

theorem gaps?_eq {last next : UInt32} {intervals : List Interval}
    (hlast : last.toNat + 1 < UInt32.size) (h : Ahead last next intervals) :
    gaps? last next intervals = some (gaps last next intervals) := by
  induction intervals generalizing next with
  | nil => rfl
  | cons i rest ih =>
    have hafter : plus? i.range.last 1 = some (i.range.last + 1) :=
      plus?_of_lt (succ_lt_size_of_le (h.le_last i List.mem_cons_self) hlast)
    rw [gaps?, gaps]
    split
    · rename_i hnext
      have hbefore : minus? i.range.first 1 = some (i.range.first - 1) :=
        minus?_of_le (by grind)
      simp [hbefore, hafter, ih h.tail]
    · simp [hafter, ih h.tail]

/-! ## Compiled battles -/

/-- Compiling a battle by checked arithmetic comes to the same, whatever the marks. -/
theorem run_compile?_eq (events : List Event) (total : UInt32) :
    (compile? events total).run = some (compile events total) := by
  rw [compile?, compile]
  by_cases htotal : total = 0
  · rw [if_pos htotal, if_pos htotal]
    rfl
  · have hlast := toNat_pred htotal ▸ total.toNat_lt
    have hsorted := pairwise_mergeSort_before events
    rw [if_neg htotal, if_neg htotal, minus?_of_le (by grind)]
    refine run_bind_eq (Reached.initial.foldlM_advance?_eq hlast hsorted) fun progress hrun ↦ ?_
    refine run_bind_eq (run_ofExcept _) fun found hfinish ↦ ?_
    obtain ⟨start, intervals⟩ := found
    have hnested := ((Reached.initial.foldlM hlast hsorted hrun).of_finish hfinish).1
    simp only [gaps?_eq hlast hnested.ahead]
    rfl

/-- The steps of a battle cover ranges inside the song, with their ends in order. -/
theorem bounds_of_compile {events : List Event} {total : UInt32} {steps : List Step}
    (h : compile events total = .ok steps) {s : Step} (hs : s ∈ steps) :
    s.music.first ≤ s.music.last ∧ s.music.last ≤ total - 1 := by
  obtain ⟨htotal, start, intervals, hnested, -, rfl⟩ := compile_eq_ok_iff.1 h
  rcases List.mem_append.1 hs with hs | hs
  · obtain ⟨r, hr, rfl⟩ := List.mem_map.1 hs
    rw [music_bridge]
    exact (bounds_of_mem_gaps (by grind) hnested.ahead hr).2
  · obtain ⟨i, hi, rfl⟩ := List.mem_map.1 hs
    rw [i.plays_step.music]
    exact ⟨hnested.first_le i hi, hnested.le_last i hi⟩

/-- **The arithmetic of battles stays in the words.**  Whatever the marks and the number of measures,
and whether the battle is accepted or rejected, checked arithmetic never gives up and comes to the
same result.  The ranges of music and of play that come out have their exact lengths. -/
theorem compile_stays_in_words (events : List Event) (total : UInt32) :
    (compile? events total).run = some (compile events total) ∧
      ∀ steps, compile events total = .ok steps →
        ∀ s ∈ steps, s.music.Exact ∧ ∀ r ∈ s.play, r.Exact := by
  refine ⟨run_compile?_eq events total, fun steps h s hs ↦ ?_⟩
  have hlast := toNat_pred (compile_eq_ok_iff.1 h).1 ▸ total.toNat_lt
  obtain ⟨hfirst, hinside⟩ := bounds_of_compile h hs
  obtain ⟨start, -, hplays⟩ := exists_start_of_compile h
  have hexact {r : MeasureRange} (hr : r.first ≤ r.last) (hle : r.last ≤ s.music.last) :
      r.Exact :=
    MeasureRange.exact_of_lt hr (succ_lt_size_of_le (UInt32.le_trans hle hinside) hlast)
  refine ⟨hexact hfirst (UInt32.le_refl _), fun r hr ↦ ?_⟩
  obtain ⟨-, hr, hle⟩ := (hplays s hs).inside r hr
  exact hexact hr hle

/-- A minigame in the last measures that there can be, and one that is too short there. -/
theorem compile_stays_in_words_greatest :
    (∃ steps, compile [⟨4294967290, .opens .minigame⟩, ⟨4294967294, .closes .minigame⟩,
        ⟨0, .battleStart⟩] 4294967295 = .ok steps ∧
      ∀ s ∈ steps, s.music.Exact ∧ ∀ r ∈ s.play, r.Exact) ∧
    (compile? [⟨0, .battleStart⟩, ⟨4294967292, .opens .minigame⟩,
        ⟨4294967294, .closes .minigame⟩] 4294967295).run =
      some (.error (.shortMinigame 4294967292 3)) := by
  constructor
  · have hnested : Nested (4294967295 - 1) 0 [⟨.minigame, ⟨4294967290, 4294967294⟩⟩] :=
      ⟨by decide, by decide, by decide, by decide, by decide, by decide⟩
    have hperm : [⟨4294967290, .opens .minigame⟩, ⟨4294967294, .closes .minigame⟩,
        ⟨0, .battleStart⟩].Perm (script 0 [⟨.minigame, ⟨4294967290, 4294967294⟩⟩]) := by decide
    have h := compile_eq_ok_iff.2 ⟨by decide, 0, _, hnested, hperm, rfl⟩
    exact ⟨_, h, (compile_stays_in_words _ _).2 _ h⟩
  · rw [(compile_stays_in_words _ _).1, compile, List.mergeSort_of_pairwise (by decide)]
    rfl

end Battle

end SongBundle
