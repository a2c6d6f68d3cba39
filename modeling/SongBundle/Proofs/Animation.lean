import SongBundle.Animation
import SongBundle.Proofs.Track
import SongBundle.Proofs.Word

/-!
# When keyframes take effect

Checked arithmetic finds the time of an index if 64 bits hold it (`animTime?_eq_some_iff`).  The time
of an index of a track never leaves this range (`animTime?_eq`), so a track without gaps has its
keyframes sixty units apart (`keyframes_of_gapless`).
-/

set_option autoImplicit false

namespace SongBundle

theorem toInt_animTime {n : Nat} (h : n < UInt32.size) :
    (animTime (Int64.ofNat n)).toInt = ((n : Int) - 1) * 60 := by
  have hlt : n < 4294967296 := h
  have hindex : (Int64.ofNat n).toInt = n := Int64.toInt_ofNat_of_lt (by omega)
  have hpred : (Int64.ofNat n - 1).toInt = (n : Int) - 1 := by
    rw [Int64.toInt_sub, hindex, Int64.toInt_one]
    exact Int.bmod_eq_of_le (by omega) (by omega)
  rw [animTime, Int64.toInt_mul, hpred, show unitsPerIndex.toInt = 60 from rfl]
  exact Int.bmod_eq_of_le (by omega) (by omega)

/-- Checked arithmetic finds the time of every index that has one. -/
theorem animTime?_eq_some_iff {index time : Int64} :
    animTime? index = some time ↔ time.toInt = (index.toInt - 1) * 60 := by
  rw [animTime?, Option.bind_eq_bind, Option.bind_eq_some_iff]
  simp only [signed?_eq_some_iff, show unitsPerIndex.toInt = 60 from rfl]
  constructor
  · rintro ⟨before, hbefore, htime⟩
    rw [htime, hbefore]
  · intro htime
    have hmin : -9223372036854775808 ≤ time.toInt := time.minValue_le_toInt
    have hmax : time.toInt ≤ 9223372036854775807 := time.toInt_le
    have hbefore : (Int64.ofInt (index.toInt - 1)).toInt = index.toInt - 1 :=
      Int64.toInt_ofInt_of_le (by omega) (by omega)
    exact ⟨_, hbefore, by rw [hbefore, htime]⟩

/-- The time of an index of a track never overflows. -/
theorem animTime?_eq {n : Nat} (h : n < UInt32.size) :
    animTime? (Int64.ofNat n) = some (animTime (Int64.ofNat n)) := by
  have hlt : n < 4294967296 := h
  rw [animTime?_eq_some_iff, toInt_animTime h, Int64.toInt_ofNat_of_lt (by omega)]

/-- The keyframes of a track without gaps. -/
theorem keyframes_of_gapless {α : Type} (value : α → String) {t : Track α} (h : t.Gapless) :
    (keyframes value t).map (fun k ↦ (k.time.toInt, k.value)) =
      (t.values.map value).mapIdx fun i name ↦ (((i : Int) - 1) * 60, name) := by
  rw [keyframes, h.toList_eq, List.map_map]
  apply List.ext_getElem
  · simp
  · intro i hi hi'
    have hlt : i < UInt32.size := by
      have := h.length_lt
      simp only [List.length_map, List.length_mapIdx] at hi
      omega
    simp only [List.getElem_map, List.getElem_mapIdx, Function.comp_apply]
    rw [UInt32.toNat_ofNat_of_lt' hlt, toInt_animTime hlt]

end SongBundle
