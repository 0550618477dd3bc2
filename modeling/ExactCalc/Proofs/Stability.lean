/-
Grouping neither breaks a text nor mends it.

* `mem_group` — grouping adds brackets and no other characters;
* `accepts_group_iff` — the scan accepts a grouped text exactly if it accepted the text before;
* `isValid_group` — the same for the whole test, for any text without blanks.
-/
import ExactCalc.Proofs.Rejection

namespace ExactCalc.Formula

/-! ### The characters of a grouped text -/

theorem Site.mem_text_resume {s : Site} {c : Char} (h : c ∈ s.resume.text) :
    c ∈ s.text ∨ c = '(' ∨ c = ')' := by
  by_cases hg : s.isGrouped = true
  · rw [text_resume_of_isGrouped hg] at h
    exact .inl h
  · rw [text_resume_of_not_isGrouped (Bool.eq_false_iff.mpr hg)] at h
    rw [text_eq]
    simp only [List.mem_append, List.mem_cons] at h ⊢
    rcases h with h | h | h | h | h | h | h <;> simp [h]

theorem Cursor.mem_finish {tier : Tier} {cursor : Cursor} {c : Char}
    (h : c ∈ cursor.finish tier) : c ∈ cursor.text ∨ c = '(' ∨ c = ')' := by
  fun_induction Cursor.finish tier cursor with
  | case1 cursor cursor' hn _ ih =>
    obtain ⟨s, hs, hresume⟩ := Option.map_eq_some_iff.mp hn
    subst hresume
    rcases ih h with hc | hc
    · have htext : s.text = cursor.text := text_of_site? hs
      rw [← htext]
      exact Site.mem_text_resume hc
    · exact .inr hc
  | case2 cursor hn => exact .inl h

/-- Grouping adds brackets and no other characters. -/
theorem mem_group {text : List Char} {c : Char} (h : c ∈ group text) :
    c ∈ text ∨ c = '(' ∨ c = ')' := by
  rw [group_eq] at h
  rcases Cursor.mem_finish h with hc | hc
  · exact Cursor.mem_finish hc
  · exact .inr hc

theorem dropBlanks_group {text : List Char} (h : ∀ c ∈ text, Text.isBlank c = false) :
    Text.dropBlanks (group text) = group text := by
  rw [Text.dropBlanks_eq_self]
  intro c hc
  rcases mem_group hc with hc | hc | hc
  · exact h c hc
  · subst hc
    rfl
  · subst hc
    rfl

/-! ### The verdict on a grouped text -/

/-- A formula stays one when it is grouped. -/
theorem accepts_group {text : List Char} (h : Scan.Accepts text) : Scan.Accepts (group text) := by
  obtain ⟨d, hd⟩ := Scan.exists_derivation_iff.mpr h
  have hgroup : group d.text = d.grouped.text := group_text d
  rw [← hd, hgroup]
  exact Scan.exists_derivation_iff.mp ⟨d.grouped, rfl⟩

/-- A text that is a formula when it is grouped was one before.  This way back is the one that needs
the operators that were visited, because a bracket can make a sign of an operator that has no left
operand. -/
theorem accepts_group_iff {text : List Char} : Scan.Accepts (group text) ↔ Scan.Accepts text :=
  ⟨(settled_group text).2, accepts_group⟩

/-- **Grouping neither breaks a text nor mends it.** -/
theorem isValid_group {text : List Char} (hblank : ∀ c ∈ text, Text.isBlank c = false) :
    isValid (group text) = isValid text := by
  rw [Bool.eq_iff_iff, isValid_iff_accepts, isValid_iff_accepts, dropBlanks_group hblank,
    Text.dropBlanks_eq_self.mpr hblank]
  exact accepts_group_iff

/-- A `-` without a left operand gets a bracket in front of it, and is a sign then. -/
theorem isValid_group_lone_minus :
    (∀ c ∈ ")-3*4".toList, Text.isBlank c = false) ∧
      isValid (group ")-3*4".toList) = false := by
  have hblank : ∀ c ∈ ")-3*4".toList, Text.isBlank c = false :=
    Text.dropBlanks_eq_self.mp rfl
  have hvalid : isValid ")-3*4".toList = false := rfl
  exact ⟨hblank, (isValid_group hblank).trans hvalid⟩

end ExactCalc.Formula
