/-
Words that repeat. A word is primitive if it is no repetition of a shorter one. A lead and a primitive
cycle that end in different digits are reduced: the sequence that they spell has no shorter lead and no
shorter cycle, and unless the cycle is a nine it is the digit sequence of the rational they denote.
-/
import Reckon.Proofs.Expansion.Canonical
import Reckon.Proofs.Expansion.Cycle

namespace Reckon.Expansion

open Reckon.Digits

/-! ## Repetition -/

/-- The first `n` characters of a word repeated without end. -/
def unrolled (w : List Char) (n : Nat) : List Char := (List.range n).map (spelledDigit [] w)

/-- The word is no repetition of a shorter one. -/
def IsPrimitive (w : List Char) : Prop := ∀ u k, u.length < w.length → w ≠ (List.replicate k u).flatten

section

variable {u w : List Char} {k n : Nat}

@[simp] theorem length_unrolled : (unrolled w n).length = n := by simp [unrolled]

theorem spelledDigit_nil (w : List Char) (i : Nat) : spelledDigit [] w i = w.getD (i % w.length) '0' :=
  spelledDigit_of_le (Nat.zero_le i)

theorem getD_unrolled {i : Nat} (h : i < n) : (unrolled w n).getD i '0' = w.getD (i % w.length) '0' := by
  rw [List.getD_eq_getElem _ _ (by rwa [length_unrolled])]
  simp [unrolled, spelledDigit_nil]

theorem unrolled_add (m : Nat) : unrolled w (k * w.length + m) = unrolled w (k * w.length) ++ unrolled w m := by
  rw [unrolled, List.range_add, List.map_append, List.map_map]
  congr 1
  refine List.map_congr_left fun i _ => ?_
  rw [Function.comp_apply, spelledDigit_nil, spelledDigit_nil, Nat.mul_add_mod_self_right]

theorem take_unrolled {k : Nat} (h : k ≤ n) : (unrolled w n).take k = unrolled w k := by
  rw [unrolled, ← List.map_take, List.take_range, Nat.min_eq_left h]
  rfl

theorem unrolled_length (w : List Char) : unrolled w w.length = w := by
  refine List.ext_getElem length_unrolled fun i hi hi' => ?_
  simp [unrolled, spelledDigit_nil, Nat.mod_eq_of_lt hi', hi']

theorem unrolled_mul (w : List Char) (k : Nat) : unrolled w (k * w.length) = (List.replicate k w).flatten := by
  induction k with
  | zero => rw [Nat.zero_mul]; rfl
  | succ k ih =>
    rw [Nat.succ_mul, unrolled_add, ih, unrolled_length, List.replicate_succ', List.flatten_append, List.flatten_singleton]

/-- Repeating a repetition is repeating the word. -/
theorem unrolled_replicate (hk : 0 < k) (n : Nat) : unrolled (List.replicate k u).flatten n = unrolled u n := by
  rcases u.eq_nil_or_concat with rfl | hu
  · simp
  have hpos : 0 < k * u.length := Nat.mul_pos hk (by obtain ⟨_, _, rfl⟩ := hu; simp)
  refine List.map_congr_left fun i _ => ?_
  rw [← unrolled_mul, spelledDigit_nil, spelledDigit_nil, length_unrolled, getD_unrolled (Nat.mod_lt _ hpos),
    Nat.mod_mul_left_mod]

/-- A word is primitive if no shorter stretch at its start, whose length divides its own, repeats to it. -/
theorem isPrimitive_iff : IsPrimitive w ↔
    ∀ g, g < w.length → g ∣ w.length → unrolled (w.take g) w.length ≠ w := by
  constructor
  · rintro h g hlt ⟨m, hm⟩ heq
    have hlen : (w.take g).length = g := by rw [List.length_take]; omega
    refine h (w.take g) m (by omega) ?_
    conv_lhs => rw [← heq, hm, Nat.mul_comm]
    rw [← unrolled_mul, hlen]
  · rintro h u k hlt rfl
    have hlen : (List.replicate k u).flatten.length = k * u.length := by rw [← unrolled_mul, length_unrolled]
    have hk : 0 < k := Nat.pos_of_ne_zero fun h0 => by simp [h0] at hlt
    refine h u.length hlt (hlen ▸ Nat.dvd_mul_left _ _) ?_
    have htake : (List.replicate k u).flatten.take u.length = u := by
      obtain ⟨j, rfl⟩ := Nat.exists_eq_succ_of_ne_zero hk.ne'
      rw [List.replicate_succ, List.flatten_cons, List.take_left]
    rw [htake, hlen, unrolled_mul]

instance (w : List Char) : Decidable (IsPrimitive w) := decidable_of_iff _ isPrimitive_iff.symm

/-- A word that holds one of its characters only once is no repetition. -/
theorem isPrimitive_of_count_one {c : Char} (h : w.count c = 1) : IsPrimitive w := by
  rintro u k hlt rfl
  rw [List.count_flatten, List.map_replicate, List.sum_replicate, smul_eq_mul] at h
  obtain rfl := Nat.eq_one_of_mul_eq_one_right h
  simp at hlt

end

/-! ## Reduced leads and cycles -/

/-- Neither the lead nor the cycle can be shorter: the cycle is primitive, and the lead does not end in the
digit that the cycle ends in. -/
structure IsReduced (lead cycle : List Char) : Prop where
  ne_nil : cycle ≠ []
  primitive : IsPrimitive cycle
  last_ne : lead.getLast? ≠ cycle.getLast?

instance (lead cycle : List Char) : Decidable (IsReduced lead cycle) :=
  decidable_of_iff (cycle ≠ [] ∧ IsPrimitive cycle ∧ lead.getLast? ≠ cycle.getLast?)
    ⟨fun h => ⟨h.1, h.2.1, h.2.2⟩, fun h => ⟨h.1, h.2, h.3⟩⟩

section

variable {lead cycle : List Char} {n : Nat}

theorem spelledDigit_add (lead cycle : List Char) (i : Nat) :
    spelledDigit lead cycle (lead.length + i) = spelledDigit [] cycle i := by
  rw [spelledDigit_nil, spelledDigit_of_le (Nat.le_add_right _ _), Nat.add_sub_cancel_left]

theorem append_unrolled (lead cycle : List Char) (n : Nat) :
    lead ++ unrolled cycle n = (List.range (lead.length + n)).map (spelledDigit lead cycle) := by
  rw [List.range_add, List.map_append, List.map_map]
  congr 1
  · refine List.ext_getElem (by simp) fun i hi _ => ?_
    simp [spelledDigit_of_lt cycle hi]
  · exact List.map_congr_left fun i _ => (spelledDigit_add lead cycle i).symm

theorem repeatsFrom_spelledDigit (lead cycle : List Char) :
    RepeatsFrom (spelledDigit lead cycle) lead.length cycle.length := by
  intro i hi
  rw [spelledDigit_of_le hi, spelledDigit_of_le (by omega), Nat.sub_add_comm hi, Nat.add_mod_right]

/-- A text that goes on with at least four cycles has a valid split behind the lead. -/
theorem valid_append_unrolled (lead : List Char) (hcycle : cycle ≠ []) (hn : Cycle.repeats * cycle.length ≤ n) :
    Cycle.Valid (lead ++ unrolled cycle n) lead.length cycle.length := by
  rw [append_unrolled]
  exact Cycle.valid_range_iff.2 ⟨List.length_pos_iff.2 hcycle, Nat.add_le_add_left hn _, fun i hi _ =>
    (repeatsFrom_spelledDigit lead cycle i hi).symm⟩

/-- Behind the lead a shorter repetition makes the cycle one of a shorter word. -/
theorem unrolled_take_of_repeatsFrom {g : Nat} (hg : g < cycle.length) (hdvd : g ∣ cycle.length)
    (h : RepeatsFrom (spelledDigit lead cycle) lead.length g) : unrolled (cycle.take g) cycle.length = cycle := by
  have hlen : (cycle.take g).length = g := by rw [List.length_take]; omega
  have hpos : 0 < g := Nat.pos_of_dvd_of_pos hdvd (by omega)
  have hcycle : ∀ i, i < cycle.length → spelledDigit lead cycle (lead.length + i) = cycle.getD i '0' := by
    intro i hi
    rw [spelledDigit_add, spelledDigit_nil, Nat.mod_eq_of_lt hi]
  refine List.ext_getElem length_unrolled fun i hi hi' => ?_
  have hlt : i % g < g := Nat.mod_lt i hpos
  have hmod : lead.length + i ≡ lead.length + i % g [MOD g] := (Nat.mod_modEq i g).symm.add_left _
  have hback := h.of_modEq (by omega) (by omega) hmod
  rw [hcycle i hi', hcycle (i % g) (by omega), List.getD_eq_getElem _ _ hi', List.getD_eq_getElem _ _ (by omega)] at hback
  have htake := getD_unrolled (w := cycle.take g) hi'
  rw [List.getD_eq_getElem _ _ hi, hlen, List.getD_eq_getElem _ _ (by omega), List.getElem_take] at htake
  rw [htake, hback]

namespace IsReduced

theorem length_pos (h : IsReduced lead cycle) : 0 < cycle.length := List.length_pos_iff.2 h.ne_nil

/-- The last digit of the lead is not the one that a cycle earlier would stand there. -/
theorem spelledDigit_last_ne (h : IsReduced lead cycle) (hlead : lead ≠ []) {i : Nat} (hi : lead.length ≤ i)
    (hlast : (i - lead.length + 1) % cycle.length = 0) :
    spelledDigit lead cycle (lead.length - 1) ≠ spelledDigit lead cycle i := by
  have hpos := h.length_pos
  have hlen := List.length_pos_iff.2 hlead
  have hplace : (i - lead.length) % cycle.length = cycle.length - 1 := by
    have hlt := Nat.mod_lt (i - lead.length) hpos
    rw [Nat.add_mod] at hlast
    rcases Nat.eq_or_lt_of_le (show 1 ≤ cycle.length from hpos) with hone | hone
    · omega
    · rw [Nat.mod_eq_of_lt hone] at hlast
      by_contra hne
      rw [Nat.mod_eq_of_lt (by omega)] at hlast
      omega
  have hne := h.last_ne
  rw [List.getLast?_eq_getElem?, List.getLast?_eq_getElem?, List.getElem?_eq_getElem (by omega),
    List.getElem?_eq_getElem (by omega), ne_eq, Option.some.injEq] at hne
  rwa [spelledDigit_of_lt cycle (by omega), spelledDigit_of_le hi, hplace, List.getD_eq_getElem _ _ (by omega)]

/-- A reduced lead and cycle are the shortest of the sequence that they spell. -/
theorem isShortest (h : IsReduced lead cycle) : IsShortest (spelledDigit lead cycle) lead.length cycle.length := by
  have hrep := repeatsFrom_spelledDigit lead cycle
  refine ⟨h.length_pos, hrep, fun p c hc h' => ?_⟩
  have hdvd : cycle.length ∣ c := by
    rcases (Nat.gcd_le_right c h.length_pos).eq_or_lt with heq | hlt
    · exact heq ▸ Nat.gcd_dvd_left c cycle.length
    · exact absurd (unrolled_take_of_repeatsFrom hlt (Nat.gcd_dvd_right _ _) (hrep.gcd h.length_pos h'))
        (isPrimitive_iff.1 h.primitive _ hlt (Nat.gcd_dvd_right _ _))
  refine ⟨?_, Nat.le_of_dvd hc hdvd⟩
  by_contra hp
  have hle := Nat.le_of_dvd hc hdvd
  have hpos := h.length_pos
  -- the last digit of the lead would come back at the end of a cycle
  refine h.spelledDigit_last_ne (List.length_pos_iff.1 (by omega)) (i := lead.length - 1 + c) (by omega) ?_
    (h' (lead.length - 1) (by omega)).symm
  rw [show lead.length - 1 + c - lead.length + 1 = c by omega]
  exact Nat.mod_eq_zero_of_dvd hdvd

end IsReduced

/-! ## The rational of a reduced spelling -/

theorem leading_digitValue (whole : Nat) (g : Nat → Char) (k : Nat) :
    leading whole (fun i => digitValue (g i)) k = whole * 10 ^ k + toNat ((List.range k).map g) := by
  induction k with
  | zero => simp [leading]
  | succ k ih =>
    rw [leading, ih, List.range_succ, List.map_append, toNat_append, List.map_singleton, List.length_singleton,
      toNat_cons, toNat_nil, List.length_nil, pow_succ]
    ring

/-- Later digits move what leads by less than a unit of its last place. -/
theorem leading_add {f : Nat → Nat} (hf : ∀ i, f i < 10) (whole k j : Nat) :
    leading whole f k * 10 ^ j ≤ leading whole f (k + j) ∧ leading whole f (k + j) + 1 ≤ (leading whole f k + 1) * 10 ^ j := by
  induction j with
  | zero => simp
  | succ j ih =>
    have hlt := hf (k + j)
    rw [← Nat.add_assoc, leading, pow_succ, ← Nat.mul_assoc, ← Nat.mul_assoc]
    omega

theorem isDigit_spelledDigit (hlead : Notation.IsDigits lead) (hcycle : Notation.IsDigits cycle) (i : Nat) :
    Text.isAsciiDigit (spelledDigit lead cycle i) = true := by
  have hmember : ∀ (ds : List Char) (j : Nat) (c : Char), Notation.IsDigits ds → Text.isAsciiDigit c = true →
      Text.isAsciiDigit (ds.getD j c) = true := by
    intro ds j c hds hc
    rcases Nat.lt_or_ge j ds.length with hj | hj
    · rw [List.getD_eq_getElem _ _ hj]
      exact hds _ (List.getElem_mem hj)
    · rwa [List.getD_eq_default _ _ hj]
  exact hmember _ _ _ hlead (hmember _ _ _ hcycle rfl)

/-- What leads in a spelling is at most a unit of its last place below the rational. -/
theorem leading_value (hcycle : cycle ≠ []) (hdigit : ∀ i, Text.isAsciiDigit (spelledDigit lead cycle i) = true)
    (negative : Bool) (whole k : Nat) :
    (leading whole (fun i => digitValue (spelledDigit lead cycle i)) k : ℚ) ≤ |value negative whole lead cycle| * 10 ^ k ∧
    |value negative whole lead cycle| * 10 ^ k ≤ leading whole (fun i => digitValue (spelledDigit lead cycle i)) k + 1 := by
  -- where four cycles are there the digits lack only what the last copy would go on with
  obtain ⟨j, hj⟩ : ∃ j, k + j = lead.length + (k + Cycle.repeats * cycle.length) := ⟨_, Nat.add_left_comm _ _ _⟩
  have hdigits : (List.range (k + j)).map (spelledDigit lead cycle) =
      lead ++ unrolled cycle (k + Cycle.repeats * cycle.length) := by rw [append_unrolled, hj]
  have hvalid := valid_append_unrolled lead hcycle (Nat.le_add_left (Cycle.repeats * cycle.length) k)
  rw [← hdigits] at hvalid
  have hcopy : cycle.length ≤ k + Cycle.repeats * cycle.length := by simp only [Cycle.repeats]; omega
  obtain ⟨t, hnonneg, hle, hvalue⟩ := hvalid.exists_lack (by simpa using fun i _ => hdigit i) negative whole
  have hplace := leading_digitValue whole (spelledDigit lead cycle) (k + j)
  rw [hdigits, List.take_left, List.drop_left, take_unrolled hcopy, unrolled_length, ← hdigits, List.length_map,
    List.length_range, ← hplace] at hvalue
  obtain ⟨hlow, hhigh⟩ := leading_add (fun i => digitValue_lt (hdigit i)) whole k j
  have hunits : |value negative whole lead cycle| * 10 ^ k * 10 ^ j =
      leading whole (fun i => digitValue (spelledDigit lead cycle i)) (k + j) + t := by
    rw [hvalue, Decimal.abs_sign_mul, abs_of_nonneg (by positivity), mul_assoc, ← pow_add]
    push_cast
    rw [div_mul_cancel₀ _ (by positivity)]
  have hten : (0 : ℚ) < 10 ^ j := by positivity
  generalize leading whole _ (k + j) = later at hlow hhigh hunits
  generalize leading whole _ k = now at hlow hhigh ⊢
  have hlow' : (now : ℚ) * 10 ^ j ≤ later := by exact_mod_cast hlow
  have hhigh' : (later : ℚ) + 1 ≤ (now + 1) * 10 ^ j := by exact_mod_cast hhigh
  constructor
  · refine le_of_mul_le_mul_right ?_ hten
    linarith
  · refine le_of_mul_le_mul_right ?_ hten
    linarith

/-- With zeros or nines as its cycle a spelling is whole in units of the last place of the lead. -/
theorem value_mul_pow_of_constant (negative : Bool) (whole : Nat) (lead : List Char) {cycle : List Char}
    (hcycle : cycle = ['0'] ∨ cycle = ['9']) : ∃ n : ℤ, value negative whole lead cycle * 10 ^ lead.length = n := by
  -- a zero adds nothing to the lead and a nine a unit
  obtain ⟨e, hcopies, he⟩ : ∃ e : Nat, cycle.length = 1 ∧ toNat cycle = 9 * e := by
    rcases hcycle with rfl | rfl
    · exact ⟨0, rfl, rfl⟩
    · exact ⟨1, rfl, rfl⟩
  have hne : cycle ≠ [] := List.length_pos_iff.1 (by omega)
  refine ⟨(if negative then -1 else 1) * (whole * 10 ^ lead.length + toNat lead + e), ?_⟩
  rw [value_eq _ _ _ hne, hcopies, he, mul_assoc]
  push_cast
  field_simp

namespace IsReduced

variable (h : IsReduced lead cycle) (hlead : Notation.IsDigits lead) (hcycle : Notation.IsDigits cycle) (negative : Bool) (whole : Nat)
include h

/-- A digit that a reduced spelling ends in over and over is its cycle. -/
theorem cycle_eq_of_constant {k : Nat} {c : Char} (hc : ∀ i, k ≤ i → spelledDigit lead cycle i = c) : cycle = [c] := by
  have hleast := h.isShortest.least k 1 Nat.one_pos fun i hi => by rw [hc i hi, hc (i + 1) (by omega)]
  obtain ⟨d, rfl⟩ := List.length_eq_one_iff.1 (le_antisymm hleast.2 h.length_pos)
  have := hc k le_rfl
  rw [spelledDigit_of_le hleast.1, List.length_singleton, Nat.mod_one] at this
  exact congrArg (fun x => [x]) this

include hlead hcycle

/-- Unless the cycle is a nine, a reduced spelling gives the digits of the rational that it denotes. -/
theorem isSpelling (hnine : cycle ≠ ['9']) : IsSpelling (value negative whole lead cycle) whole lead cycle := by
  have hdigit := isDigit_spelledDigit hlead hcycle
  have hbounds := leading_value h.ne_nil hdigit negative whole
  refine ⟨fun i => digitValue (spelledDigit lead cycle i),
    ⟨fun i => digitValue_lt (hdigit i), fun k => (hbounds k).1, fun k => (hbounds k).2, fun k => ?_⟩,
    fun i => (digitChar_digitValue (hdigit i)).symm⟩
  by_contra! hnines
  refine hnine (h.cycle_eq_of_constant (k := k) fun i hi => ?_)
  rw [← digitChar_digitValue (hdigit i), hnines i hi]
  rfl

/-- Unless the cycle is a nine, a reduced spelling is the minimal expansion of the rational that it denotes. -/
theorem isExpansion (hnine : cycle ≠ ['9']) : IsExpansion (value negative whole lead cycle) whole lead cycle := by
  obtain ⟨hwhole, hspelled⟩ := isSpelling_iff.1 (h.isSpelling hlead hcycle negative whole hnine)
  generalize value negative whole lead cycle = q at hwhole hspelled
  have hsequence : spelledDigit lead cycle = fun i => digitChar (digitAt q i) := funext hspelled
  refine ⟨hwhole, ?_, ?_, ?_⟩
  · rw [← IsShortest.comp_iff fun i j => digitChar_inj (digitAt_lt q i) (digitAt_lt q j), ← hsequence]
    exact h.isShortest
  · have := append_unrolled lead cycle 0
    rwa [hsequence, Nat.add_zero, unrolled, List.range_zero, List.map_nil, List.append_nil] at this
  · conv_lhs => rw [← unrolled_length cycle, unrolled]
    refine List.map_congr_left fun i _ => ?_
    rw [← spelledDigit_add lead, hspelled]

/-- A reduced spelling denotes a rational that terminates exactly if its cycle is a zero or a nine. -/
theorem terminates_iff : Terminates (value negative whole lead cycle) ↔ cycle = ['0'] ∨ cycle = ['9'] := by
  constructor
  · intro hq
    by_contra! hcycles
    have hexpansion := h.isExpansion hlead hcycle negative whole hcycles.2
    have hspelled := (isSpelling_iff.1 (h.isSpelling hlead hcycle negative whole hcycles.2)).2
    generalize value negative whole lead cycle = q at hq hexpansion hspelled
    -- from where the division comes out even on all digits are zeros
    have hzero := remainderAt_of_terminates hq hexpansion.shortest
    refine hcycles.1 (h.cycle_eq_of_constant (k := lead.length) fun i hi => ?_)
    rw [hspelled, digitAt_eq, digitOf_of_remainderAt q.den_pos hzero hi]
    rfl
  · exact fun hcycles => ⟨lead.length, value_mul_pow_of_constant negative whole lead hcycles⟩

end IsReduced

end

end Reckon.Expansion
