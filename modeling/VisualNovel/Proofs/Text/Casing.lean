import Mathlib
import VisualNovel.Text.Casing

/-!
Small letters of the plain alphabet. Lowering leaves no plain capital, and apart from plain letters
only the long s and the sign of the kelvin fold to plain small ones. Hence a lowered text that
folds to a plain word without a k is its own lowering.
-/
namespace VisualNovel.Text

theorem isUpper_iff (c : Char) : c.isUpper = true ↔ 65 ≤ c.toNat ∧ c.toNat ≤ 90 := by
  simp [Char.isUpper, UInt32.le_iff_toNat_le]

theorem isLower_iff (c : Char) : c.isLower = true ↔ 97 ≤ c.toNat ∧ c.toNat ≤ 122 := by
  simp [Char.isLower, UInt32.le_iff_toNat_le]

/-- A number that is no letter stands for the first of all letters. -/
theorem toNat_ofNat (n : Nat) : (Char.ofNat n).toNat = n ∨ (Char.ofNat n).toNat = 0 := by
  unfold Char.ofNat
  split
  · exact .inl rfl
  · exact .inr rfl

theorem CaseRun.bounds_of_covers {run : CaseRun} {n : Nat} (h : run.covers n = true) :
    run.first ≤ n ∧ n ≤ run.last := by
  simp only [covers, Bool.and_eq_true, decide_eq_true_eq] at h
  exact h.1

/-- The images of a letter with several, a letter at a distance, or the letter itself. -/
theorem CaseMap.image_cases (map : CaseMap) (c : Char) :
    (∃ entry ∈ map.expansions, map.image c = entry.2.map Char.ofNat) ∨
      (∃ run ∈ map.runs, (run.first ≤ c.toNat ∧ c.toNat ≤ run.last) ∧
        map.image c = [Char.ofNat (c.toNat + run.distance).toNat]) ∨ map.image c = [c] := by
  unfold image
  cases hexpansion : map.expansions.find? (·.1 == c.toNat) with
  | some entry => exact .inl ⟨entry, List.mem_of_find?_eq_some hexpansion, rfl⟩
  | none =>
    cases hrun : map.runs.find? (·.covers c.toNat) with
    | some run =>
      have hcovers : run.covers c.toNat = true := by simpa using List.find?_some hrun
      exact .inr (.inl ⟨run, List.mem_of_find?_eq_some hrun, CaseRun.bounds_of_covers hcovers, rfl⟩)
    | none => exact .inr (.inr rfl)

theorem lowerTable_runs : ∀ run ∈ lowerTable.runs,
    run.last < 128 ∨ 90 < (run.first : Int) + run.distance := by
  decide +kernel

theorem lowerTable_expansions : ∀ entry ∈ lowerTable.expansions, ∀ n ∈ entry.2,
    (Char.ofNat n).isUpper = false := by
  decide +kernel

theorem lowerChar_not_upper {c d : Char} (h : d ∈ lowerChar c) : d.isUpper = false := by
  unfold lowerChar at h
  split at h
  · obtain rfl := List.mem_singleton.mp h
    exact Char.isUpper_toLower_eq_false c
  · rename_i hplain
    rw [← Bool.not_eq_true, isUpper_iff]
    obtain ⟨entry, hentry, himage⟩ | ⟨run, hrun, hcovers, himage⟩ | himage :=
      lowerTable.image_cases c <;> rw [himage] at h
    · obtain ⟨n, hn, rfl⟩ := List.mem_map.mp h
      rw [← isUpper_iff, lowerTable_expansions entry hentry n hn]
      exact Bool.false_ne_true
    · obtain rfl := List.mem_singleton.mp h
      have hfar := lowerTable_runs run hrun
      have hvalue := toNat_ofNat (c.toNat + run.distance).toNat
      omega
    · obtain rfl := List.mem_singleton.mp h
      omega

theorem foldTable_runs : ∀ run ∈ foldTable.runs,
    run.last < 128 ∨ 128 ≤ (run.first : Int) + run.distance ∨ run.first = 383 ∧ run.last = 383 ∨
      run.first = 8490 ∧ run.last = 8490 := by
  decide +kernel

theorem foldTable_expansions : ∀ entry ∈ foldTable.expansions, 2 ≤ entry.2.length := by
  decide +kernel

/-- A letter other than a capital that folds to a plain small letter other than k is small. -/
theorem lowerChar_eq_self_of_foldChar {c d : Char} (hcapital : c.isUpper = false)
    (h : foldChar c = [d]) (hsmall : d.isLower = true) (hk : d ≠ 'k') : lowerChar c = [c] := by
  unfold foldChar at h
  rw [isLower_iff] at hsmall
  split at h
  · rename_i hplain
    rw [lowerChar, if_pos hplain, Char.toLower_eq_of_not_isUpper (by simp [hcapital])]
  · rename_i hplain
    obtain ⟨entry, hentry, himage⟩ | ⟨run, hrun, hcovers, himage⟩ | himage :=
      foldTable.image_cases c <;> rw [himage] at h
    · have hlong := foldTable_expansions entry hentry
      have hsingle := congrArg List.length h
      simp only [List.length_map, List.length_singleton] at hsingle
      omega
    · obtain rfl := List.singleton_inj.mp h
      have hvalue := toNat_ofNat (c.toNat + run.distance).toNat
      obtain hnear | hfar | ⟨hfirst, hlast⟩ | ⟨hfirst, hlast⟩ := foldTable_runs run hrun
      · omega
      · omega
      · have hlong : c.toNat = '\u017f'.toNat := by
          rw [show '\u017f'.toNat = 383 from rfl]
          omega
        rw [Char.toNat_inj.mp hlong]
        decide +kernel
      · have hkelvin : c.toNat = '\u212a'.toNat := by
          rw [show '\u212a'.toNat = 8490 from rfl]
          omega
        have hfolded : foldTable.image '\u212a' = ['k'] := by decide +kernel
        rw [← Char.toNat_inj.mp hkelvin, himage] at hfolded
        exact absurd (List.singleton_inj.mp hfolded) hk
    · obtain rfl := List.singleton_inj.mp h
      omega

/-- A plain small word without a k. -/
def IsPlainWord (word : String) : Prop := ∀ d ∈ word.toList, d.isLower = true ∧ d ≠ 'k'

theorem lower_lower_of_foldEach {s word : String} (hword : IsPlainWord word)
    (h : foldEach (lower s) = word) : lower (lower s) = lower s := by
  have hfolds := hword
  simp only [← h, IsPlainWord, foldEach, String.toList_ofList, List.forall_mem_map] at hfolds
  have hletters : ∀ c ∈ (lower s).toList, lowerChar c = [c] := by
    intro c hc
    have hcapital : c.isUpper = false := by
      simp only [lower, String.toList_ofList, List.mem_flatMap] at hc
      obtain ⟨letter, -, hmem⟩ := hc
      exact lowerChar_not_upper hmem
    have hplain := hfolds c hc
    split at hplain
    · rename_i d hd
      exact lowerChar_eq_self_of_foldChar hcapital hd hplain.1 hplain.2
    · have hsmall := (isLower_iff c).mp hplain.1
      rw [lowerChar, if_pos (by omega), Char.toLower_eq_of_not_isUpper (by simp [hcapital])]
  conv_lhs => rw [lower]
  rw [List.flatMap_congr hletters, List.flatMap_singleton', String.ofList_toList]

end VisualNovel.Text
