/-
Sequences that repeat from some place on. The shortest lead and the shortest cycle of such a
sequence belong together, and enough of the text decides them: where a stretch repeats with
another length too, the periodicity lemma makes that length a multiple of the cycle and keeps the
stretch from starting before it.
-/
import Mathlib

namespace Reckon

variable {α : Type}

/-- From `start` on the sequence repeats with the given length. -/
def RepeatsFrom (f : Nat → α) (start length : Nat) : Prop := ∀ i, start ≤ i → f (i + length) = f i

/-- A shortest lead and a shortest cycle: no repetition starts earlier or is shorter. -/
structure IsShortest (f : Nat → α) (lead cycle : Nat) : Prop where
  pos : 0 < cycle
  repeats : RepeatsFrom f lead cycle
  least : ∀ p c, 0 < c → RepeatsFrom f p c → lead ≤ p ∧ cycle ≤ c

namespace RepeatsFrom

variable {f : Nat → α} {p c : Nat}

theorem add_mul (h : RepeatsFrom f p c) (k : Nat) {i : Nat} (hi : p ≤ i) : f (i + k * c) = f i := by
  induction k with
  | zero => simp
  | succ k ih => rw [Nat.succ_mul, ← Nat.add_assoc, h _ (by omega), ih]

theorem of_modEq (h : RepeatsFrom f p c) {i j : Nat} (hi : p ≤ i) (hj : p ≤ j) (e : i ≡ j [MOD c]) :
    f i = f j := by
  rcases Nat.le_total i j with hij | hij
  · obtain ⟨k, hk⟩ := (Nat.modEq_iff_dvd' hij).1 e
    rw [show j = i + k * c by rw [Nat.mul_comm]; omega, h.add_mul k hi]
  · obtain ⟨k, hk⟩ := (Nat.modEq_iff_dvd' hij).1 e.symm
    rw [show i = j + k * c by rw [Nat.mul_comm]; omega, h.add_mul k hj]

/-- Two lengths by which the sequence repeats somewhere have their common divisor as one, from the
earlier start on. -/
theorem gcd (h : RepeatsFrom f p c) (hc : 0 < c) {p' c' : Nat} (h' : RepeatsFrom f p' c') : RepeatsFrom f p (c'.gcd c) := by
  rcases (Nat.gcd_le_right c' hc).eq_or_lt with heq | hlt
  · rwa [heq]
  · obtain ⟨m, -, hm⟩ := Nat.exists_mul_mod_eq_gcd hlt
    intro i hi
    -- far enough behind both starts a multiple of one length is the divisor up to the other
    have hstart : p' ≤ i + p' * c := (Nat.le_mul_of_pos_right p' hc).trans (Nat.le_add_left _ _)
    have hmod : i + c'.gcd c ≡ i + p' * c + m * c' [MOD c] := by
      have hdivisor : c'.gcd c ≡ m * c' [MOD c] := by rw [Nat.mul_comm, ← hm]; exact Nat.mod_modEq _ _
      have hmultiple : p' * c ≡ 0 [MOD c] := (Nat.modEq_zero_iff_dvd).2 (Nat.dvd_mul_left c p')
      have := (Nat.ModEq.refl i).add (hmultiple.symm.add hdivisor)
      rwa [Nat.zero_add, ← Nat.add_assoc] at this
    rw [h.of_modEq (by omega) (by omega) hmod, h'.add_mul m hstart, h.add_mul p' hi]

/-- A length by which a stretch of more than a cycle repeats is one of the whole sequence. -/
theorem of_stretch (h : RepeatsFrom f p c) (hc : 0 < c) {g n : Nat} (hn : p + c + g ≤ n)
    (hg : ∀ k, p ≤ k → k + g < n → f k = f (k + g)) : RepeatsFrom f p g := by
  intro i hi
  -- move both places back into the first cycle
  have hlt := Nat.mod_lt (i - p) hc
  have hmod : p + (i - p) % c ≡ i [MOD c] := by
    have := (Nat.mod_modEq (i - p) c).add_left p
    rwa [Nat.add_sub_cancel' hi] at this
  rw [← h.of_modEq (by omega) hi hmod, ← h.of_modEq (show p ≤ p + (i - p) % c + g by omega) (by omega) (hmod.add_right g)]
  exact (hg _ (by omega) (by omega)).symm

end RepeatsFrom

namespace IsShortest

variable {f : Nat → α} {p c : Nat}

/-- How the members are named does not matter. -/
theorem comp_iff {β : Type} {g : α → β} (hg : ∀ i j, g (f i) = g (f j) ↔ f i = f j) :
    IsShortest (fun i => g (f i)) p c ↔ IsShortest f p c := by
  have hrep : ∀ p c, RepeatsFrom (fun i => g (f i)) p c ↔ RepeatsFrom f p c := fun p c =>
    forall_congr' fun i => imp_congr_right fun _ => hg _ _
  constructor
  · rintro ⟨hpos, hrepeats, hleast⟩
    exact ⟨hpos, (hrep _ _).1 hrepeats, fun p' c' hc' h' => hleast p' c' hc' ((hrep _ _).2 h')⟩
  · rintro ⟨hpos, hrepeats, hleast⟩
    exact ⟨hpos, (hrep _ _).2 hrepeats, fun p' c' hc' h' => hleast p' c' hc' ((hrep _ _).1 h')⟩

theorem unique {p' c' : Nat} (h : IsShortest f p c) (h' : IsShortest f p' c') : p = p' ∧ c = c' := by
  obtain ⟨h1, h2⟩ := h.least p' c' h'.pos h'.repeats
  obtain ⟨h3, h4⟩ := h'.least p c h.pos h.repeats
  omega

/-- The stretch from the lead to `n` as a word. -/
theorem hasPeriod_iff {n l : Nat} (w : List α) (hw : w = (List.range (n - p)).map fun k => f (p + k)) :
    w.HasPeriod l ↔ ∀ k, p ≤ k → k + l < n → f k = f (k + l) := by
  subst hw
  rw [List.hasPeriod_iff_getElem?]
  simp only [List.length_map, List.length_range]
  constructor
  · intro h k hk hn
    have := h (k - p) (by omega)
    rw [List.getElem?_map, List.getElem?_map, List.getElem?_range (by omega), List.getElem?_range (by omega)] at this
    simp only [Option.map_some, Option.some.injEq] at this
    rwa [show p + (k - p) = k by omega, show p + (k - p + l) = k + l by omega] at this
  · intro h i hi
    rw [List.getElem?_map, List.getElem?_map, List.getElem?_range (by omega), List.getElem?_range (by omega)]
    simp only [Option.map_some, Option.some.injEq]
    rw [h (p + i) (by omega) (by omega), Nat.add_assoc]

/-- A length by which a long enough stretch behind the lead repeats is a multiple of the cycle. -/
theorem dvd_of_stretch (h : IsShortest f p c) {l n : Nat} (hl : 0 < l) (hn : p + 2 * c ≤ n)
    (hgcd : p + (l + c - l.gcd c) ≤ n) (hw : ∀ k, p ≤ k → k + l < n → f k = f (k + l)) : c ∣ l := by
  have hper := (hasPeriod_iff (p := p) _ rfl).2 hw
  have hcyc := (hasPeriod_iff (n := n) (p := p) (l := c) _ rfl).2 fun k hk _ => (h.repeats k hk).symm
  have hg := (hasPeriod_iff (p := p) _ rfl).1 (hper.gcd hcyc (by simpa using by omega))
  have hgc : l.gcd c ≤ c := Nat.gcd_le_right l h.pos
  have hle := (h.least p (l.gcd c) (Nat.gcd_pos_of_pos_left c hl) (h.repeats.of_stretch h.pos (by omega) hg)).2
  have : l.gcd c = c := by omega
  rw [← this]; exact Nat.gcd_dvd_left l c

/-- Nor does such a stretch reach in front of the lead. -/
theorem lead_le_of_stretch (h : IsShortest f p c) {s l n : Nat} (hl : 0 < l) (hn : p + 2 * c ≤ n)
    (hgcd : p + (l + c - l.gcd c) ≤ n) (hw : ∀ k, s ≤ k → k + l < n → f k = f (k + l)) : p ≤ s := by
  by_contra hs
  have hdvd := h.dvd_of_stretch hl hn hgcd fun k hk => hw k (by omega)
  obtain ⟨m, hm⟩ := hdvd
  have hgl : l.gcd c = c := Nat.gcd_eq_right ⟨m, hm⟩
  rw [hgl] at hgcd
  -- the digit in front of the lead would belong to the cycle
  have hlast : RepeatsFrom f (p - 1) c := by
    intro i hi
    rcases Nat.eq_or_lt_of_le hi with rfl | hi
    · rw [hw (p - 1) (by omega) (by omega)]
      refine h.repeats.of_modEq (by have := h.pos; omega) (by omega) ?_
      rw [hm]
      exact (Nat.ModEq.refl _).add (by simp [Nat.ModEq])
    · exact h.repeats i (by omega)
  have := (h.least (p - 1) c h.pos hlast).1
  omega

end IsShortest

end Reckon
