/-
The search for the repeating block returns the best valid split. On the digits of a quotient with
four cycles the true split is always valid, so the search can only do better: it finds the true
split exactly if no valid split starts earlier, and none does where the lead is short against the
cycle.
-/
import Reckon.Expansion.Cycle
import Reckon.Proofs.Expansion.Division

namespace Reckon.Cycle

open Reckon.Digits Reckon.Expansion

/-! ## Valid splits -/

/-- The digits from `start` on repeat with the length, and the cycle appears often enough. -/
structure Valid (ds : List Char) (start length : Nat) : Prop where
  pos : 0 < length
  fits : start + repeats * length ≤ ds.length
  recurs : ∀ k, start ≤ k → k + length < ds.length → ds[k]? = ds[k + length]?

/-- The split is preferred: it starts earlier, or at the same place with a cycle no longer. -/
def Split.Preferred (a : Split) (start length : Nat) : Prop :=
  a.start < start ∨ a.start = start ∧ a.length ≤ length

/-- Among the splits with a cycle shorter than `bound` the given one is valid and preferred to all
valid ones; none means that there is no valid one. -/
def IsBest (ds : List Char) (bound : Nat) : Option Split → Prop
  | none => ∀ s l, l < bound → ¬ Valid ds s l
  | some b => b.length < bound ∧ Valid ds b.start b.length ∧ ∀ s l, l < bound → Valid ds s l → b.Preferred s l

variable {ds : List Char}

/-! ## The search -/

theorem repeatStart_le_iff (l k s : Nat) :
    repeatStart ds.toArray l k ≤ s ↔ ∀ i, s ≤ i → i < k → ds[i]? = ds[i + l]? := by
  induction k with
  | zero => exact iff_of_true (Nat.zero_le s) fun i _ hi => absurd hi (Nat.not_lt_zero i)
  | succ k ih =>
    unfold repeatStart
    simp only [List.getElem?_toArray, beq_iff_eq]
    split
    · rename_i heq
      rw [ih]
      refine ⟨fun h i hs hi => ?_, fun h i hs hi => h i hs (by omega)⟩
      rcases Nat.lt_succ_iff_lt_or_eq.1 hi with hi | rfl
      · exact h i hs hi
      · exact heq
    · rename_i hne
      refine ⟨fun h i hs hi => by omega, fun h => ?_⟩
      by_contra hs
      exact hne (h k (by omega) (by omega))

/-- The valid splits with one cycle length are those from its least start on that fit. -/
theorem valid_iff {s l : Nat} (hl : 0 < l) :
    Valid ds s l ↔ repeatStart ds.toArray l (ds.length - l) ≤ s ∧ s + repeats * l ≤ ds.length := by
  rw [repeatStart_le_iff]
  constructor
  · rintro ⟨-, hfits, hrep⟩
    exact ⟨fun i hs hi => hrep i hs (by omega), hfits⟩
  · rintro ⟨hrep, hfits⟩
    exact ⟨hl, hfits, fun k hs hk => hrep k hs (by omega)⟩

/-- The best split so far stays best if no split with the next length starts earlier. -/
theorem isBest_succ_of_le {l : Nat} {b : Split} (h : IsBest ds l (some b)) (hle : ∀ s, Valid ds s l → b.start ≤ s) :
    IsBest ds (l + 1) (some b) := by
  obtain ⟨hlength, hvalid, hpreferred⟩ := h
  refine ⟨by omega, hvalid, fun s l' hlt hv => ?_⟩
  rcases Nat.lt_succ_iff_lt_or_eq.1 hlt with hlt | rfl
  · exact hpreferred s l' hlt hv
  · exact (Nat.lt_or_eq_of_le (hle s hv)).imp_right fun heq => ⟨heq, hlength.le⟩

/-- The least start with the next length makes the best split if it is before that of the best one so far. -/
theorem isBest_succ_of_lt {l start : Nat} {best : Option Split} (h : IsBest ds l best)
    (hearlier : ∀ b ∈ best, start < b.start) (hvalid : Valid ds start l) (hleast : ∀ s, Valid ds s l → start ≤ s) :
    IsBest ds (l + 1) (some ⟨start, l⟩) := by
  have hbehind : ∀ s l', l' < l → Valid ds s l' → start < s := fun s l' hlt hv => by
    cases best with
    | none => exact absurd hv (h s l' hlt)
    | some b => exact (hearlier b rfl).trans_le ((h.2.2 s l' hlt hv).elim Nat.le_of_lt fun heq => heq.1.le)
  refine ⟨Nat.lt_succ_self l, hvalid, fun s l' hlt hv => ?_⟩
  rcases Nat.lt_succ_iff_lt_or_eq.1 hlt with hlt | rfl
  · exact .inl (hbehind s l' hlt hv)
  · exact (Nat.lt_or_eq_of_le (hleast s hv)).imp_right fun heq => ⟨heq, le_rfl⟩

theorem improve_isBest {l : Nat} (hl : 0 < l) {best : Option Split} (h : IsBest ds l best) :
    IsBest ds (l + 1) (improve ds.toArray best l) := by
  have hrep : repeats = 4 := rfl
  unfold improve
  simp only [List.size_toArray]
  split
  · rename_i hlong
    have hnone : ∀ s, ¬ Valid ds s l := fun s hv => by
      have := (valid_iff hl).1 hv
      rw [hrep] at this hlong
      omega
    cases best with
    | none =>
      intro s l' hlt
      rcases Nat.lt_succ_iff_lt_or_eq.1 hlt with hlt | rfl
      · exact h s l' hlt
      · exact hnone s
    | some b => exact isBest_succ_of_le h fun s hv => absurd hv (hnone s)
  · rename_i hfits
    have hvalid : Valid ds (repeatStart ds.toArray l (ds.length - l)) l :=
      (valid_iff hl).2 ⟨le_refl _, by rw [hrep] at hfits ⊢; omega⟩
    have hleast : ∀ s, Valid ds s l → repeatStart ds.toArray l (ds.length - l) ≤ s :=
      fun s hv => ((valid_iff hl).1 hv).1
    -- of the splits with this length only the one with the least start matters
    generalize repeatStart ds.toArray l (ds.length - l) = start at hvalid hleast
    cases best with
    | none => exact isBest_succ_of_lt h (fun b hb => nomatch hb) hvalid hleast
    | some b =>
      simp only
      split
      · rename_i hlt
        exact isBest_succ_of_lt h (by rintro _ ⟨⟩; exact hlt) hvalid hleast
      · rename_i hge
        exact isBest_succ_of_le h fun s hv => (Nat.le_of_not_lt hge).trans (hleast s hv)

theorem search_isBest (count : Nat) {l : Nat} (hl : 0 < l) {best : Option Split} (h : IsBest ds l best) :
    IsBest ds (l + count) (search ds.toArray count l best) := by
  induction count generalizing l best with
  | zero => exact h
  | succ count ih =>
    unfold search
    have hnext := improve_isBest hl h
    split
    · rename_i n heq
      -- a split that starts at once stays preferred, whatever the longer cycles are
      rw [heq] at hnext
      obtain ⟨hlt, hv, hpref⟩ := hnext
      refine ⟨by simp only at hlt ⊢; omega, hv, fun s l' _ hv' => ?_⟩
      rcases Nat.lt_or_ge l' (l + 1) with hl' | hl'
      · exact hpref s l' hl' hv'
      · unfold Split.Preferred
        simp only at hlt ⊢
        omega
    · rw [show l + (count + 1) = l + 1 + count by omega]
      exact ih (Nat.succ_pos l) hnext

theorem best_isBest : IsBest ds (1 + ds.length / repeats) (best ds.toArray) := by
  refine search_isBest _ Nat.one_pos fun s l hl hv => ?_
  have := hv.pos
  omega

theorem Valid.length_lt {s l : Nat} (h : Valid ds s l) : l < 1 + ds.length / repeats := by
  have := h.fits
  have hle : l ≤ ds.length / repeats := (Nat.le_div_iff_mul_le (by decide)).2 (by rw [Nat.mul_comm]; omega)
  omega

theorem best_eq_none_iff : best ds.toArray = none ↔ ∀ s l, ¬ Valid ds s l := by
  have h := @best_isBest ds
  constructor
  · intro heq s l hv
    rw [heq] at h
    exact h s l hv.length_lt hv
  · intro hnone
    cases hb : best ds.toArray with
    | none => rfl
    | some b =>
      rw [hb] at h
      exact absurd h.2.1 (hnone _ _)

/-- The search finds the valid split that is preferred to all others. -/
theorem best_eq_some_iff (b : Split) :
    best ds.toArray = some b ↔ Valid ds b.start b.length ∧ ∀ s l, Valid ds s l → b.Preferred s l := by
  have h := @best_isBest ds
  constructor
  · intro heq
    rw [heq] at h
    exact ⟨h.2.1, fun s l hv => h.2.2 s l hv.length_lt hv⟩
  · rintro ⟨hv, hpref⟩
    cases hb : best ds.toArray with
    | none => exact absurd hv (best_eq_none_iff.1 hb _ _)
    | some b' =>
      rw [hb] at h
      have h1 := h.2.2 _ _ hv.length_lt hv
      have h2 := hpref _ _ h.2.1
      unfold Split.Preferred at h1 h2
      obtain ⟨s, l⟩ := b
      obtain ⟨s', l'⟩ := b'
      simp only [Option.some.injEq, Split.mk.injEq] at h1 h2 ⊢
      omega

/-! ## The rational of a split -/

theorem Valid.add_length_le {s l : Nat} (h : Valid ds s l) : s + l ≤ ds.length := by
  have := h.fits
  have : l ≤ repeats * l := Nat.le_mul_of_pos_left l (by decide)
  omega

theorem Valid.length_lead {s l : Nat} (h : Valid ds s l) : (ds.take s).length = s := by
  have := h.add_length_le
  rw [List.length_take]
  omega

theorem Valid.length_cycle {s l : Nat} (h : Valid ds s l) : ((ds.drop s).take l).length = l := by
  have := h.add_length_le
  rw [List.length_take, List.length_drop]
  omega

theorem Valid.cycle_ne_nil {s l : Nat} (h : Valid ds s l) : (ds.drop s).take l ≠ [] :=
  List.length_pos_iff.1 (h.length_cycle.symm ▸ h.pos)

theorem Valid.ne_nil {s l : Nat} (h : Valid ds s l) : ds ≠ [] :=
  List.ne_nil_of_length_pos (by have := h.pos; have := h.add_length_le; omega)

/-- The digits from the start of a valid split on are its cycle over a block of nines, but for the
digits that the last copy would go on with. -/
theorem Valid.toNat_drop {s l : Nat} (h : Valid ds s l) :
    toNat (ds.drop s) * (10 ^ l - 1) + toNat (ds.drop (ds.length - l)) =
      toNat ((ds.drop s).take l) * 10 ^ (ds.length - s) := by
  have hlong := h.add_length_le
  have hrep := h.recurs
  have hshift : (ds.drop s).drop l = (ds.drop s).take (ds.length - s - l) := by
    refine List.ext_getElem? fun i => ?_
    rw [List.drop_drop, List.getElem?_drop, List.getElem?_take, List.getElem?_drop]
    split
    · rw [hrep (s + i) (by omega) (by omega)]
      congr 1
      omega
    · exact List.getElem?_eq_none (by omega)
  -- the digits behind the start, cut after the first cycle and before the last one
  have hfront := toNat_append ((ds.drop s).take l) ((ds.drop s).drop l)
  have hback := toNat_append ((ds.drop s).take (ds.length - s - l)) ((ds.drop s).drop (ds.length - s - l))
  rw [List.take_append_drop, List.length_drop, List.length_drop] at hfront hback
  rw [hshift] at hfront
  rw [show ds.length - s - (ds.length - s - l) = l by omega, List.drop_drop,
    show s + (ds.length - s - l) = ds.length - l by omega] at hback
  have hpow : 10 ^ (ds.length - s) = 10 ^ (ds.length - s - l) * 10 ^ l := by
    rw [← pow_add]
    congr 1
    omega
  have hten : 1 ≤ 10 ^ l := Nat.one_le_pow _ _ (by decide)
  rw [hpow]
  zify [hten] at *
  linear_combination (10 ^ l) * hfront - hback

/-- The rational of a valid split: its digits, and behind them what the last copy would go on with
over a block of nines. -/
theorem Valid.value_eq {s l : Nat} (h : Valid ds s l) (negative : Bool) (whole : Nat) :
    value negative whole (ds.take s) ((ds.drop s).take l) = (if negative then -1 else 1) *
      ((((whole * 10 ^ ds.length + toNat ds : Nat) : ℚ) + toNat (ds.drop (ds.length - l)) / ((10 ^ l - 1 : Nat) : ℚ)) /
        ((10 ^ ds.length : Nat) : ℚ)) := by
  have htail := h.toNat_drop
  have hlong := h.add_length_le
  have hnines := nines_pos h.pos
  have hsplit := toNat_append (ds.take s) (ds.drop s)
  rw [List.take_append_drop, List.length_drop] at hsplit
  have hpow : 10 ^ ds.length = 10 ^ s * 10 ^ (ds.length - s) := by
    rw [← pow_add]
    congr 1
    omega
  rw [Expansion.value_eq _ _ _ h.cycle_ne_nil, h.length_lead, h.length_cycle, hsplit, hpow]
  congr 1
  have hfront : ((10 ^ s : Nat) : ℚ) ≠ 0 := by positivity
  have hback : ((10 ^ (ds.length - s) : Nat) : ℚ) ≠ 0 := by positivity
  have hnines' : ((10 ^ l - 1 : Nat) : ℚ) ≠ 0 := by exact_mod_cast hnines.ne'
  have htail' := congrArg (Nat.cast : Nat → ℚ) htail
  rw [Nat.cast_add, Nat.cast_mul, Nat.cast_mul] at htail'
  rw [Nat.cast_add, Nat.cast_mul, Nat.cast_add, Nat.cast_mul, Nat.cast_mul, Nat.cast_add, Nat.cast_mul, Nat.cast_mul,
    Nat.cast_add, Nat.cast_mul]
  generalize ((10 ^ s : Nat) : ℚ) = front at hfront ⊢
  generalize ((10 ^ (ds.length - s) : Nat) : ℚ) = back at hback htail' ⊢
  generalize ((10 ^ l - 1 : Nat) : ℚ) = nines at hnines' htail' ⊢
  field_simp
  linear_combination -htail'

/-- The digits lack at most a unit of their last place of the rational of a valid split. -/
theorem Valid.exists_lack {s l : Nat} (h : Valid ds s l) (hds : ∀ c ∈ ds, Text.isAsciiDigit c = true) (negative : Bool)
    (whole : Nat) : ∃ t : ℚ, 0 ≤ t ∧ t ≤ 1 ∧ value negative whole (ds.take s) ((ds.drop s).take l) =
      (if negative then -1 else 1) * ((((whole * 10 ^ ds.length + toNat ds : Nat) : ℚ) + t) / ((10 ^ ds.length : Nat) : ℚ)) := by
  have hlong := h.add_length_le
  have hnines := nines_pos h.pos
  have hrest : toNat (ds.drop (ds.length - l)) ≤ 10 ^ l - 1 := by
    have := toNat_lt fun c hc => hds c (List.mem_of_mem_drop (i := ds.length - l) hc)
    rw [List.length_drop, Nat.sub_sub_self (by omega)] at this
    omega
  refine ⟨_, by positivity, ?_, h.value_eq negative whole⟩
  rw [div_le_one (by exact_mod_cast hnines)]
  exact_mod_cast hrest

/-- The minimal expansion of the rational of a valid split has no longer lead and no longer cycle. -/
theorem Valid.expansion_le {s l : Nat} (h : Valid ds s l) {q : ℚ} {negative : Bool} {whole whole' : Nat} {lead cycle : List Char}
    (hvalue : value negative whole' (ds.take s) ((ds.drop s).take l) = q) (hq : IsExpansion q whole lead cycle) :
    lead.length ≤ s ∧ cycle.length ≤ l := by
  have hrep := repeatsFrom_of_value h.cycle_ne_nil hvalue
  rw [h.length_lead, h.length_cycle] at hrep
  exact hq.shortest_digitOf.least s l h.pos hrep

/-! ## Splits of the leading members of a sequence -/

section

variable {f : Nat → Char} {p c n : Nat}

theorem valid_range_iff {s l : Nat} : Valid ((List.range n).map f) s l ↔
    0 < l ∧ s + repeats * l ≤ n ∧ ∀ k, s ≤ k → k + l < n → f k = f (k + l) := by
  have hmember : ∀ k l, k + l < n →
      (((List.range n).map f)[k]? = ((List.range n).map f)[k + l]? ↔ f k = f (k + l)) := by
    intro k l hk
    rw [List.getElem?_map, List.getElem?_map, List.getElem?_range (by omega), List.getElem?_range hk, Option.map_some,
      Option.map_some, Option.some.injEq]
  constructor
  · rintro ⟨hl, hfits, hrep⟩
    rw [List.length_map, List.length_range] at hfits
    exact ⟨hl, hfits, fun k hs hk => (hmember k l hk).1 (hrep k hs (by simpa using hk))⟩
  · rintro ⟨hl, hfits, hrep⟩
    refine ⟨hl, by simpa using hfits, fun k hs hk => ?_⟩
    rw [List.length_map, List.length_range] at hk
    exact (hmember k l hk).2 (hrep k hs hk)

/-- The shortest lead and cycle are a valid split as soon as four cycles are there. -/
theorem valid_shortest (h : IsShortest f p c) (hn : p + repeats * c ≤ n) : Valid ((List.range n).map f) p c :=
  valid_range_iff.2 ⟨h.pos, hn, fun k hk _ => (h.repeats k hk).symm⟩

/-- The search finds the shortest lead and cycle exactly if no valid split starts earlier. -/
theorem best_range_iff (h : IsShortest f p c) (hn : p + repeats * c ≤ n) :
    best ((List.range n).map f).toArray = some ⟨p, c⟩ ↔ ¬ ∃ s l, s < p ∧ Valid ((List.range n).map f) s l := by
  rw [best_eq_some_iff]
  constructor
  · rintro ⟨-, hpref⟩ ⟨s, l, hs, hv⟩
    have := hpref s l hv
    unfold Split.Preferred at this
    simp only at this
    omega
  · intro hnone
    refine ⟨valid_shortest h hn, fun s l hv => ?_⟩
    rcases Nat.lt_trichotomy s p with hs | rfl | hs
    · exact absurd ⟨s, l, hs, hv⟩ hnone
    · -- from the lead on only multiples of the cycle repeat
      refine .inr ⟨rfl, ?_⟩
      obtain ⟨hl, -, hrep⟩ := valid_range_iff.1 hv
      by_contra hlt
      simp only [repeats] at hn hlt
      have := h.dvd_of_stretch hl (by omega) (by omega) hrep
      exact hlt (Nat.le_of_dvd hl this)
    · exact .inl hs

/-- A valid split does not start in front of the lead if its cycle and the shortest one both show behind it. -/
theorem lead_le_of_valid (h : IsShortest f p c) (hn : p + repeats * c ≤ n) {s l : Nat}
    (hv : Valid ((List.range n).map f) s l) (hroom : p + (l + c) ≤ n + 1) : p ≤ s := by
  obtain ⟨hl, -, hrep⟩ := valid_range_iff.1 hv
  simp only [repeats] at hn
  have hgcd : 0 < l.gcd c := Nat.gcd_pos_of_pos_left c hl
  exact h.lead_le_of_stretch hl (by omega) (by omega) hrep

/-- A lead of at most eight cycles and seven members is found: an earlier split would be so short
that both cycles show in the stretch behind the lead. -/
theorem best_of_short_lead (h : IsShortest f p c) (hn : p + repeats * c ≤ n) (hp : p ≤ 8 * c + 7) :
    best ((List.range n).map f).toArray = some ⟨p, c⟩ := by
  rw [best_range_iff h hn]
  rintro ⟨s, l, hs, hv⟩
  obtain ⟨-, hfits, -⟩ := valid_range_iff.1 hv
  have hroom : p + (l + c) ≤ n + 1 := by
    simp only [repeats] at hn hfits
    omega
  exact absurd (lead_le_of_valid h hn hv hroom) (Nat.not_le_of_lt hs)

/-- So is any lead if all but the last twelve members are the same: a split with a cycle of four or more would make
them the same throughout. -/
theorem best_of_constant_head (h : IsShortest f p c) (hn : p + repeats * c ≤ n) {x : Char}
    (hx : ∀ i, i + 12 < n → f i = x) : best ((List.range n).map f).toArray = some ⟨p, c⟩ := by
  rw [best_range_iff h hn]
  rintro ⟨s, l, hs, hv⟩
  obtain ⟨-, hfits, hrep⟩ := valid_range_iff.1 hv
  have hc := h.pos
  have hlead := lead_le_of_valid h hn hv
  simp only [repeats] at hn hfits
  rcases Nat.lt_or_ge l 4 with hshort | hlong
  · exact absurd (hlead (by omega)) (Nat.not_le_of_lt hs)
  have hconst : ∀ i, s ≤ i → f i = x := by
    intro i
    induction i using Nat.strong_induction_on with
    | _ i ih =>
      intro hi
      rcases Nat.lt_or_ge i (s + l) with hfirst | hlater
      · exact hx i (by omega)
      rcases Nat.lt_or_ge i n with hinside | hbehind
      · have heq := hrep (i - l) (by omega) (by omega)
        rw [Nat.sub_add_cancel (by omega)] at heq
        exact heq.symm.trans (ih (i - l) (by omega) (by omega))
      · have heq := h.repeats (i - c) (by omega)
        rw [Nat.sub_add_cancel (by omega)] at heq
        exact heq.trans (ih (i - c) (by omega) (by omega))
  have := (h.least s 1 Nat.one_pos fun i hi => (hconst (i + 1) (by omega)).trans (hconst i hi).symm).1
  omega

end

/-! ## Splits of the digits of a quotient -/

section

variable {num den p c : Nat}

theorem digitsAt_eq_range (n : Nat) :
    digitsAt num den 0 n = (List.range n).map fun i => digitChar (digitOf num den i) := by
  simp only [digitsAt, Nat.zero_add]

theorem isShortest_digitChar (h : IsShortest (digitOf num den) p c) :
    IsShortest (fun i => digitChar (digitOf num den i)) p c :=
  (IsShortest.comp_iff fun i j => digitChar_inj (digitOf_lt i) (digitOf_lt j)).2 h

/-- The search finds the shortest lead and cycle exactly if no valid split starts earlier. -/
theorem best_digitsAt_iff (h : IsShortest (digitOf num den) p c) {n : Nat} (hn : p + repeats * c ≤ n) :
    best (digitsAt num den 0 n).toArray = some ⟨p, c⟩ ↔ ¬ ∃ s l, s < p ∧ Valid (digitsAt num den 0 n) s l := by
  rw [digitsAt_eq_range]
  exact best_range_iff (isShortest_digitChar h) hn

/-- A lead of at most eight cycles and seven digits is found on four cycles. -/
theorem best_digitsAt_of_short_lead (h : IsShortest (digitOf num den) p c) (hp : p ≤ 8 * c + 7) :
    best (digitsAt num den 0 (p + repeats * c)).toArray = some ⟨p, c⟩ := by
  rw [digitsAt_eq_range]
  exact best_of_short_lead (isShortest_digitChar h) le_rfl hp

end

end Reckon.Cycle
