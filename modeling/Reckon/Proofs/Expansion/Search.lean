/-
What the search for the repeating block returns. Of the valid splits of a text it is the one that starts
first and, among those that start there, the shortest; there is none exactly if no split is valid. Its lead
and cycle are reduced, and a reduced lead and cycle are found again in a text that goes on with at least
four cycles, as long as the lead is short against the cycle.
-/
import Reckon.Proofs.Expansion.Word

namespace Reckon.Cycle

open Reckon.Expansion

/-- The valid split with the least start and, among those with that start, the one with the shortest
cycle. -/
structure IsFirst (ds : List Char) (start length : Nat) : Prop where
  valid : Valid ds start length
  least_start : ∀ s l, Valid ds s l → start ≤ s
  least_length : ∀ l, Valid ds start l → length ≤ l

section

variable {ds lead cycle : List Char} {s l m : Nat}

/-! ## Valid splits and unrolled cycles -/

/-- Behind the start of a valid split the text is its unrolled cycle. -/
theorem Valid.drop_eq_unrolled (h : Valid ds s l) : ds.drop s = unrolled ((ds.drop s).take l) (ds.length - s) := by
  have hlong := h.add_length_le
  have hperiod : (ds.drop s).HasPeriod l := List.hasPeriod_iff_getElem?.2 fun i hi => by
    rw [List.length_drop] at hi
    rw [List.getElem?_drop, List.getElem?_drop, ← Nat.add_assoc]
    exact h.recurs (s + i) (Nat.le_add_right s i) (by omega)
  have hlength := h.length_cycle
  refine List.ext_getElem (by rw [length_unrolled, List.length_drop]) fun i hi hi' => ?_
  rw [length_unrolled] at hi'
  have hlt : i % l < l := Nat.mod_lt i h.pos
  have hback := hperiod.getElem?_mod l i _ hi
  rw [List.getElem?_eq_getElem hi, List.getElem?_eq_getElem (by rw [List.length_drop]; omega), Option.some.injEq] at hback
  have hcopy := getD_unrolled (w := (ds.drop s).take l) hi'
  rw [hlength, List.getD_eq_getElem _ _ (by rwa [length_unrolled]), List.getD_eq_getElem _ _ (by omega),
    List.getElem_take, hback] at hcopy
  exact hcopy.symm

theorem Valid.eq_append (h : Valid ds s l) : ds = ds.take s ++ unrolled ((ds.drop s).take l) (ds.length - s) := by
  rw [← h.drop_eq_unrolled, List.take_append_drop]

/-! ## The first split -/

theorem best_eq_some_iff_isFirst : best ds.toArray = some ⟨s, l⟩ ↔ IsFirst ds s l := by
  rw [best_eq_some_iff]
  unfold Split.Preferred
  constructor
  · rintro ⟨hvalid, hpref⟩
    refine ⟨hvalid, fun s' l' h' => ?_, fun l' h' => ?_⟩
    · have := hpref s' l' h'
      simp only at this
      omega
    · have := hpref s l' h'
      simp only at this
      omega
  · rintro ⟨hvalid, hstart, hlength⟩
    refine ⟨hvalid, fun s' l' h' => ?_⟩
    rcases (hstart s' l' h').lt_or_eq with hlt | rfl
    · exact .inl hlt
    · exact .inr ⟨rfl, hlength l' h'⟩

theorem exists_isFirst (h : ∃ s l, Valid ds s l) : ∃ s l, IsFirst ds s l := by
  obtain ⟨s, l, hvalid⟩ := h
  cases hb : best ds.toArray with
  | none => exact absurd hvalid (best_eq_none_iff.1 hb s l)
  | some b => exact ⟨b.start, b.length, best_eq_some_iff_isFirst.1 hb⟩

namespace IsFirst

/-- A cycle that is a repetition would be split into shorter ones. -/
theorem primitive (h : IsFirst ds s l) : IsPrimitive ((ds.drop s).take l) := by
  have hpos := h.valid.pos
  have hfits := h.valid.fits
  have hlength := h.valid.length_cycle
  intro u k hlt heq
  rw [hlength] at hlt
  have hk : 0 < k := Nat.pos_of_ne_zero fun h0 => by simp [heq, h0] at hlength; omega
  have hu : u ≠ [] := fun h0 => by simp [heq, h0] at hlength; omega
  have hvalid : Valid (ds.take s ++ unrolled u (ds.length - s)) (ds.take s).length u.length :=
    valid_append_unrolled _ hu (by simp only [repeats] at hfits ⊢; omega)
  rw [← unrolled_replicate hk, ← heq, ← h.valid.eq_append, h.valid.length_lead] at hvalid
  exact absurd (h.least_length _ hvalid) (by omega)

/-- A lead that ends like the cycle would belong to it. -/
theorem last_ne (h : IsFirst ds s l) : (ds.take s).getLast? ≠ ((ds.drop s).take l).getLast? := by
  have hpos := h.valid.pos
  have hlong := h.valid.add_length_le
  have hcycle : ((ds.drop s).take l).getLast? = ds[s + l - 1]? := by
    rw [List.getLast?_eq_getElem?, h.valid.length_cycle, List.getElem?_take_of_lt (by omega), List.getElem?_drop]
    congr 1
    omega
  rw [hcycle, List.getElem?_eq_getElem (by omega)]
  intro heq
  rcases Nat.eq_zero_or_pos s with rfl | hs
  · simp at heq
  have hlead : (ds.take s).getLast? = ds[s - 1]? := by
    rw [List.getLast?_eq_getElem?, h.valid.length_lead, List.getElem?_take_of_lt (by omega)]
  rw [hlead, ← List.getElem?_eq_getElem] at heq
  have hvalid : Valid ds (s - 1) l := by
    refine ⟨hpos, by have := h.valid.fits; omega, fun k hk hn => ?_⟩
    rcases hk.eq_or_lt with rfl | hk
    · rw [heq]
      congr 1
      omega
    · exact h.valid.recurs k (by omega) hn
  exact absurd (h.least_start _ _ hvalid) (by omega)

theorem isReduced (h : IsFirst ds s l) : IsReduced (ds.take s) ((ds.drop s).take l) :=
  ⟨h.valid.cycle_ne_nil, h.primitive, h.last_ne⟩

end IsFirst

/-! ## What is found -/

theorem find_of_best (h : best ds.toArray = some ⟨s, l⟩) (limit : Option Int) : find ds limit =
    if ∀ m ∈ limit, ((s + 2 * l : Nat) : Int) ≤ m then some (ds.take s, (ds.drop s).take l) else none := by
  unfold find
  rw [h]
  cases limit with
  | none => simp
  | some m => simp

theorem find_of_not_valid (h : ¬ ∃ s l, Valid ds s l) (limit : Option Int) : find ds limit = none := by
  unfold find
  rw [best_eq_none_iff.2 fun s l hv => h ⟨s, l, hv⟩]

theorem exists_isFirst_of_find {limit : Option Int} (h : find ds limit = some (lead, cycle)) :
    ∃ s l, IsFirst ds s l ∧ lead = ds.take s ∧ cycle = (ds.drop s).take l := by
  have hvalid : ∃ s l, Valid ds s l := by
    by_contra hnone
    rw [find_of_not_valid hnone] at h
    cases h
  obtain ⟨s, l, hfirst⟩ := exists_isFirst hvalid
  rw [find_of_best (best_eq_some_iff_isFirst.2 hfirst)] at h
  split at h
  · obtain ⟨rfl, rfl⟩ := Prod.mk.inj (Option.some.inj h)
    exact ⟨s, l, hfirst, rfl, rfl⟩
  · cases h

/-- What is found is reduced, and the text is the lead with the cycle repeated at least four times. -/
theorem spelled_of_find {limit : Option Int} (h : find ds limit = some (lead, cycle)) : IsReduced lead cycle ∧
    lead.length + repeats * cycle.length ≤ ds.length ∧ ds = (List.range ds.length).map (spelledDigit lead cycle) := by
  obtain ⟨s, l, hfirst, rfl, rfl⟩ := exists_isFirst_of_find h
  have hfits := hfirst.valid.fits
  have hlong := hfirst.valid.add_length_le
  have hlead := hfirst.valid.length_lead
  have hspelled := hfirst.valid.eq_append
  rw [append_unrolled, hlead, Nat.add_sub_cancel' (by omega)] at hspelled
  exact ⟨hfirst.isReduced, by rwa [hlead, hfirst.valid.length_cycle], hspelled⟩

theorem find_append_unrolled (h : best (lead ++ unrolled cycle m).toArray = some ⟨lead.length, cycle.length⟩)
    (hm : cycle.length ≤ m) (limit : Option Int) : find (lead ++ unrolled cycle m) limit =
      if ∀ k ∈ limit, ((lead.length + 2 * cycle.length : Nat) : Int) ≤ k then some (lead, cycle) else none := by
  rw [find_of_best h, List.take_left, List.drop_left, take_unrolled hm, unrolled_length]

theorem find_append_unrolled_none (h : best (lead ++ unrolled cycle m).toArray = some ⟨lead.length, cycle.length⟩)
    (hm : cycle.length ≤ m) : find (lead ++ unrolled cycle m) none = some (lead, cycle) := by
  rw [find_append_unrolled h hm, if_pos fun k hk => absurd hk (Option.not_mem_none k)]

/-- A reduced lead and cycle are the first split of a text with at least four cycles exactly if no valid split
starts within the lead. -/
theorem best_append_unrolled_iff (h : IsReduced lead cycle) (hm : repeats * cycle.length ≤ m) :
    best (lead ++ unrolled cycle m).toArray = some ⟨lead.length, cycle.length⟩ ↔
      ¬ ∃ s l, s < lead.length ∧ Valid (lead ++ unrolled cycle m) s l := by
  rw [append_unrolled]
  exact best_range_iff h.isShortest (Nat.add_le_add_left hm _)

/-- None does if the lead is short against its cycle. -/
theorem best_append_unrolled (h : IsReduced lead cycle) (hm : repeats * cycle.length ≤ m)
    (hlead : lead.length ≤ 8 * cycle.length + 7) :
    best (lead ++ unrolled cycle m).toArray = some ⟨lead.length, cycle.length⟩ := by
  rw [append_unrolled]
  exact best_of_short_lead h.isShortest (Nat.add_le_add_left hm _) hlead

/-- The search returns nothing exactly if no split is valid, and else the first one; a limit hides it unless
the lead and two cycles lie within. What is returned is reduced. -/
theorem find_first_split (ds : List Char) :
    (find ds none = none ↔ ¬ ∃ s l, Valid ds s l) ∧
    ((∃ s l, Valid ds s l) → ∃ s l, IsFirst ds s l ∧ find ds none = some (ds.take s, (ds.drop s).take l) ∧
      ∀ m : Int, find ds (some m) =
        if (s : Int) + 2 * l ≤ m then some (ds.take s, (ds.drop s).take l) else none) ∧
    ((¬ ∃ s l, Valid ds s l) → ∀ limit, find ds limit = none) ∧
    ∀ limit lead cycle, find ds limit = some (lead, cycle) → IsReduced lead cycle := by
  by_cases hvalid : ∃ s l, Valid ds s l
  · obtain ⟨s, l, hfirst⟩ := exists_isFirst hvalid
    have hfind := find_of_best (best_eq_some_iff_isFirst.2 hfirst)
    have hnone : find ds none = some (ds.take s, (ds.drop s).take l) := by simpa using hfind none
    refine ⟨?_, fun _ => ⟨s, l, hfirst, hnone, fun m => ?_⟩, fun h => absurd hvalid h, fun _ _ _ h => (spelled_of_find h).1⟩
    · rw [hnone]
      exact iff_of_false nofun (not_not.2 hvalid)
    · simpa using hfind (some m)
  · have hfind := find_of_not_valid hvalid
    exact ⟨iff_of_true (hfind none) hvalid, fun h => absurd h hvalid, fun _ => hfind, fun _ _ _ h => (spelled_of_find h).1⟩

/-- The nines at the end repeat as well, but the cycle that they belong to starts earlier. -/
theorem find_first_split_trailing_nines : (∃ s l, Valid (unrolled "00009999".toList 32) s l) ∧
    ∃ s l, IsFirst (unrolled "00009999".toList 32) s l ∧ (unrolled "00009999".toList 32).take s = [] ∧
      ((unrolled "00009999".toList 32).drop s).take l = "00009999".toList := by
  obtain ⟨hnone, hfirst, -⟩ := find_first_split (unrolled "00009999".toList 32)
  have hfound : find (unrolled "00009999".toList 32) none = some ([], "00009999".toList) := by decide +kernel
  have hvalid : ∃ s l, Valid (unrolled "00009999".toList 32) s l := by
    by_contra h
    exact absurd (hfound.symm.trans (hnone.2 h)) nofun
  obtain ⟨s, l, hsplit, hfind, -⟩ := hfirst hvalid
  obtain ⟨hlead, hcycle⟩ := Prod.mk.inj (Option.some.inj (hfind.symm.trans hfound))
  exact ⟨hvalid, s, l, hsplit, hlead, hcycle⟩

/-- A reduced lead and cycle are found in a text with at least four cycles, if the lead is no longer than
eight cycles and seven digits. -/
theorem find_of_isReduced (h : IsReduced lead cycle) (hm : 4 * cycle.length ≤ m)
    (hlead : lead.length ≤ 8 * cycle.length + 7) : find (lead ++ unrolled cycle m) none = some (lead, cycle) :=
  find_append_unrolled_none (best_append_unrolled h hm hlead) (by omega)

/-- Fifteen digits may come before a cycle of one digit. -/
theorem find_of_isReduced_fifteen : IsReduced "333313333133331".toList ['3'] ∧ 4 * ['3'].length ≤ 6 ∧
    "333313333133331".toList.length ≤ 8 * ['3'].length + 7 ∧
    find ("333313333133331".toList ++ unrolled ['3'] 6) none = some ("333313333133331".toList, ['3']) := by
  have hreduced : IsReduced "333313333133331".toList ['3'] := by decide
  exact ⟨hreduced, by decide, by decide, find_of_isReduced hreduced (by decide) (by decide)⟩

-- with sixteen digits before it, four copies of the cycle can be the end of another one
example : find ("1333313333133331".toList ++ unrolled ['3'] 4) none = some ([], "13333".toList) := by decide +kernel

end

end Reckon.Cycle
