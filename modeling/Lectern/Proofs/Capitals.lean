-- Upper case leaves alone what it does not know, and what it writes instead
-- of a small letter are capitals. No capital is a blank, a backslash, a brace
-- or a small letter of the basic alphabet, so upper case adds none of these.
import Lectern.Text.Blank
import Lectern.Text.Upper

namespace Lectern

/-! ## Where capitals stand -/

/-- The numbers from `first` to `last` lie where capitals stand: among the
basic capitals, or in a stretch behind the basic letters that has no blank
in it. -/
def CapitalRange (first last : Nat) : Prop :=
  (0x41 ≤ first ∧ last ≤ 0x5A) ∨ (0xC0 ≤ first ∧ last < 0x1680) ∨
    (0x1680 < first ∧ last < 0x2000) ∨ (0x205F < first ∧ last < 0x3000) ∨
    (0x3000 < first ∧ last < 0x110000)

instance (first last : Nat) : Decidable (CapitalRange first last) := by
  unfold CapitalRange
  infer_instance

theorem CapitalRange.of_mem {first last n : Nat} (h : CapitalRange first last) (hf : first ≤ n)
    (hl : n ≤ last) : CapitalRange n n := by
  unfold CapitalRange at h ⊢
  omega

theorem capitalRange_caseRuns :
    ∀ r ∈ caseRuns, CapitalRange r.capital (r.capital + (r.last - r.first)) := by
  decide +kernel

theorem capitalRange_wideCapitals :
    ∀ entry ∈ wideCapitals, entry.2 ≠ [] ∧ ∀ n ∈ entry.2, CapitalRange n n := by
  decide +kernel

namespace CodePoint

/-- The code point is among those that upper case writes. -/
def IsCapital (c : CodePoint) : Prop := CapitalRange c.val c.val

theorem ofNat_val (n : Nat) (h : CapitalRange n n) : (ofNat n).val = n := by
  have hn : n < 0x110000 := by
    unfold CapitalRange at h
    omega
  rw [ofNat, dif_pos hn]

theorem isCapital_ofNat {n : Nat} (h : CapitalRange n n) : (ofNat n).IsCapital := by
  unfold IsCapital
  rwa [ofNat_val n h]

theorem IsCapital.not_isBlank {c : CodePoint} (h : c.IsCapital) : c.isBlank = false := by
  unfold IsCapital CapitalRange at h
  rw [← Bool.not_eq_true]
  intro hb
  simp only [isBlank, Bool.or_eq_true, Bool.and_eq_true, decide_eq_true_eq, beq_iff_eq] at hb
  omega

theorem IsCapital.ne {c d : CodePoint} (h : c.IsCapital) (hd : ¬ d.IsCapital) : c ≠ d := by
  rintro rfl
  exact hd h

/-! ## The capitals of a code point -/

/-- Upper case leaves a code point as it is, or writes capitals for it. -/
theorem upper_eq_or (c : CodePoint) :
    c.upper = [c] ∨ (c.upper ≠ [] ∧ ∀ d ∈ c.upper, d.IsCapital) := by
  unfold upper
  split
  · rename_i capitals hwide
    obtain ⟨before, behind, htable, -⟩ := List.lookup_eq_some_iff.mp hwide
    obtain ⟨hne, hcapital⟩ := capitalRange_wideCapitals (c.val, capitals) (by simp [htable])
    refine .inr ⟨by simpa using hne, fun d hd => ?_⟩
    obtain ⟨n, hn, rfl⟩ := List.mem_map.mp hd
    exact isCapital_ofNat (hcapital n hn)
  · split
    · rename_i capital hrun
      obtain ⟨r, hr, hc⟩ := List.exists_of_findSome?_eq_some hrun
      refine .inr ⟨by simp, fun d hd => ?_⟩
      unfold CaseRun.capital? at hc
      split at hc
      · rename_i hin
        cases hc
        rw [List.mem_singleton.mp hd]
        exact isCapital_ofNat ((capitalRange_caseRuns r hr).of_mem (by omega) (by omega))
      · cases hc
    · exact .inl rfl

/-- A small letter of the basic alphabet. -/
def IsSmallLetter (c : CodePoint) : Prop := 0x61 ≤ c.val ∧ c.val ≤ 0x7A

/-- Each small letter has a capital. -/
theorem IsSmallLetter.upper_ne {c : CodePoint} (h : c.IsSmallLetter) : c.upper ≠ [c] := by
  have hall : ∀ n : Fin 0x7B, 0x61 ≤ n.val → (ofNat n).upper ≠ [ofNat n] := by
    decide +kernel
  have hof : ofNat c.val = c := by
    rw [ofNat, dif_pos c.lt]
  have hlt : c.val < 0x7B := Nat.lt_succ_of_le h.2
  have hupper := hall ⟨c.val, hlt⟩ h.1
  rwa [hof] at hupper

theorem not_isSmallLetter_of_mem_upper {c d : CodePoint} (h : d ∈ c.upper) :
    ¬ d.IsSmallLetter := by
  intro hsmall
  rcases c.upper_eq_or with hc | ⟨-, hc⟩
  · rw [hc, List.mem_singleton] at h
    subst h
    exact hsmall.upper_ne hc
  · have hd := hc d h
    unfold IsCapital CapitalRange at hd
    unfold IsSmallLetter at hsmall
    omega

/-- A code point that is no capital is in upper case only where it was. -/
theorem eq_of_mem_upper {c d : CodePoint} (h : d ∈ c.upper) (hd : ¬ d.IsCapital) : d = c := by
  rcases c.upper_eq_or with hc | ⟨-, hc⟩
  · rwa [hc, List.mem_singleton] at h
  · exact absurd (hc d h) hd

theorem upper_ne_nil (c : CodePoint) : c.upper ≠ [] := by
  rcases c.upper_eq_or with hc | ⟨hc, -⟩
  · rw [hc]
    exact List.cons_ne_nil c []
  · exact hc

end CodePoint

/-! ## Texts in upper case -/

namespace Text

theorem not_mem_upper {t : Text} {c : CodePoint} (hc : ¬ c.IsCapital) (h : c ∉ t) :
    c ∉ t.upper := by
  intro hm
  obtain ⟨d, hd, hm⟩ := List.mem_flatMap.mp hm
  exact h (CodePoint.eq_of_mem_upper hm hc ▸ hd)

/-- What is not blank stays so. -/
theorem exists_not_blank_upper {t : Text} (h : ∃ c ∈ t, ¬ c.isBlank) :
    ∃ c ∈ t.upper, ¬ c.isBlank := by
  obtain ⟨c, hc, hblank⟩ := h
  obtain ⟨d, hd⟩ := List.exists_mem_of_ne_nil _ c.upper_ne_nil
  refine ⟨d, List.mem_flatMap.mpr ⟨c, hc, hd⟩, ?_⟩
  rcases c.upper_eq_or with hupper | ⟨-, hupper⟩
  · rw [hupper, List.mem_singleton] at hd
    rwa [hd]
  · simp [(hupper d hd).not_isBlank]

/-- The code points of a kind that upper case leaves alone, and in which no
capital is, come through it as they are. -/
theorem filter_upper {p : CodePoint → Bool} (hp : ∀ c : CodePoint, c.IsCapital → p c = false)
    (hself : ∀ c, p c → c.upper = [c]) (t : Text) : t.upper.filter p = t.filter p := by
  have hone : ∀ c : CodePoint, c.upper.filter p = [c].filter p := by
    intro c
    rcases c.upper_eq_or with hc | ⟨hne, hc⟩
    · rw [hc]
    · have hnone : c.upper.filter p = [] := List.filter_eq_nil_iff.mpr fun d hd => by
        simp [hp d (hc d hd)]
      have hpc : ¬ p c := by
        intro hpc
        rw [hself c hpc, List.filter_cons_of_pos hpc] at hnone
        cases hnone
      rw [hnone, List.filter_cons_of_neg hpc, List.filter_nil]
  induction t with
  | nil => rfl
  | cons c t ih =>
    unfold upper at ih ⊢
    rw [List.flatMap_cons, List.filter_append, ih, hone, ← List.filter_append, List.singleton_append]

end Text

end Lectern
