/-
A number between two bounds is drawn by bytes. As many bits are kept as the count of the numbers has, and what
lies beyond the count is rejected, so each number is given by equally many strings of bytes, and at most every
second one is rejected.
-/
import Reckon.Proofs.Number.PromotedPower
import Reckon.Proofs.Random.Source
import Reckon.Random.Numbers

namespace Reckon.Random

open Reckon.Real Sampler

/-! ## Bits -/

theorem two_pow_bitLength_le {n : Nat} (hn : n ≠ 0) : 2 ^ bitLength n ≤ 2 * n := by
  unfold bitLength
  rw [if_neg hn, pow_succ, Nat.mul_comm]
  exact Nat.mul_le_mul_left 2 (Nat.log2_self_le hn)

/-- The number of bytes that are drawn at once. -/
def byteCount (span : Nat) : Nat := (bitLength span + 7) / 8

/-- The bits of a draw that are kept. -/
def masked (span : Nat) (bs : List Nat) : Nat := ofBytes bs % 2 ^ bitLength span

theorem offset_eq (span : Nat) (bs : List Nat) :
    offset span bs = if masked span bs < span then some (masked span bs) else none := rfl

/-- No fewer bytes have the bits. -/
theorem byteCount_isLeast (span : Nat) : IsLeast {n | bitLength span ≤ 8 * n} (byteCount span) := by
  unfold byteCount
  constructor
  · change bitLength span ≤ 8 * ((bitLength span + 7) / 8)
    omega
  · intro n hn
    have : bitLength span ≤ 8 * n := hn
    omega

/-! ## Strings of bytes -/

/-- The bytes of a string of a given length. -/
def bytesOf {n : Nat} (v : Fin n → Fin 256) : List Nat := List.ofFn fun i => (v i).val

theorem ofBytes_bytesOf {n : Nat} (v : Fin n → Fin 256) : ofBytes (bytesOf v) = finFunctionFinEquiv v := by
  rw [finFunctionFinEquiv_apply]
  induction n with
  | zero => rfl
  | succ n ih =>
    have htail : ofBytes (bytesOf v) = ofBytes (bytesOf fun i => v i.succ) * 256 + v 0 := by
      rw [bytesOf, List.ofFn_succ]
      rfl
    rw [htail, ih, Fin.sum_univ_succ, Finset.sum_mul, Nat.add_comm]
    refine congrArg₂ _ (by simp) (Finset.sum_congr rfl fun i _ => ?_)
    rw [Fin.val_succ, pow_succ, Nat.mul_assoc]

/-- Each number of the kept bits is left by equally many strings of bytes. -/
theorem card_masked_eq {span r : Nat} (hr : r < 2 ^ bitLength span) :
    (Finset.univ.filter fun v : Fin (byteCount span) → Fin 256 => masked span (bytesOf v) = r).card =
      2 ^ (8 * byteCount span - bitLength span) := by
  have hpow : 256 ^ byteCount span = 2 ^ (8 * byteCount span - bitLength span) * 2 ^ bitLength span := by
    rw [← pow_add, Nat.sub_add_cancel (byteCount_isLeast span).1, pow_mul, show 2 ^ 8 = 256 from rfl]
  have hpos : 0 < 2 ^ bitLength span := Nat.two_pow_pos _
  calc (Finset.univ.filter fun v : Fin (byteCount span) → Fin 256 => masked span (bytesOf v) = r).card
    _ = (Finset.univ.filter fun i : Fin (256 ^ byteCount span) => i.val % 2 ^ bitLength span = r).card := by
      refine Finset.card_equiv finFunctionFinEquiv fun v => ?_
      rw [Finset.mem_filter_univ, Finset.mem_filter_univ, masked, ofBytes_bytesOf]
    _ = Nat.count (· ≡ r [MOD 2 ^ bitLength span]) (256 ^ byteCount span) := by
      rw [Nat.count_eq_card_filter_range]
      refine Finset.card_bij (fun i _ => i.val) ?_ (fun i _ j _ h => Fin.ext h) ?_
      · intro i hi
        rw [Finset.mem_filter_univ] at hi
        exact Finset.mem_filter.2 ⟨Finset.mem_range.2 i.isLt, by rw [Nat.ModEq, hi, Nat.mod_eq_of_lt hr]⟩
      · intro k hk
        obtain ⟨hlt, hmod⟩ := Finset.mem_filter.1 hk
        rw [Nat.ModEq, Nat.mod_eq_of_lt hr] at hmod
        exact ⟨⟨k, Finset.mem_range.1 hlt⟩, (Finset.mem_filter_univ _).2 hmod, rfl⟩
    _ = 2 ^ (8 * byteCount span - bitLength span) := by
      rw [Nat.count_modEq_card _ hpos, hpow, Nat.mul_mod_left, if_neg (Nat.not_lt_zero _),
        Nat.mul_div_cancel _ hpos, Nat.add_zero]

/-- The strings of bytes that are accepted. -/
theorem card_accepted (span : Nat) :
    (Finset.univ.filter fun v : Fin (byteCount span) → Fin 256 => masked span (bytesOf v) < span).card =
      span * 2 ^ (8 * byteCount span - bitLength span) := by
  rw [Finset.card_eq_sum_card_fiberwise (f := fun v => masked span (bytesOf v)) (t := Finset.range span)
    fun v hv => Finset.mem_coe.2 (Finset.mem_range.2 (Finset.mem_filter.1 (Finset.mem_coe.1 hv)).2)]
  calc _
    _ = ∑ _r ∈ Finset.range span, 2 ^ (8 * byteCount span - bitLength span) := by
      refine Finset.sum_congr rfl fun r hr => ?_
      have hlt := Finset.mem_range.1 hr
      rw [Finset.filter_filter, ← card_masked_eq (hlt.trans (lt_two_pow_bitLength span))]
      refine congrArg Finset.card (Finset.filter_congr fun v _ => and_iff_right_of_imp fun h => ?_)
      exact lt_of_eq_of_lt h hlt
    _ = span * 2 ^ (8 * byteCount span - bitLength span) := by
      rw [Finset.sum_const, Finset.card_range, smul_eq_mul]

/-- What makes the draws of bytes fair for `span` numbers. -/
structure IsFair (span : Nat) : Prop where
  /-- No fewer bytes have enough bits. -/
  bytes : IsLeast {n | bitLength span ≤ 8 * n} (byteCount span)
  /-- Each number is left by equally many strings of bytes. -/
  uniform : ∀ r < span, (Finset.univ.filter fun v : Fin (byteCount span) → Fin 256 => masked span (bytesOf v) = r).card =
    2 ^ (8 * byteCount span - bitLength span)
  /-- At least half of the numbers of so many bits lie in the range. -/
  half : span < 2 ^ bitLength span ∧ 2 ^ bitLength span ≤ 2 * span
  /-- At least half of the strings of bytes are accepted. -/
  half_strings : 256 ^ byteCount span ≤
    2 * (Finset.univ.filter fun v : Fin (byteCount span) → Fin 256 => masked span (bytesOf v) < span).card

theorem isFair {span : Nat} (hspan : span ≠ 0) : IsFair span where
  bytes := byteCount_isLeast span
  uniform r hr := card_masked_eq (hr.trans (lt_two_pow_bitLength span))
  half := ⟨lt_two_pow_bitLength span, two_pow_bitLength_le hspan⟩
  half_strings := by
    have hle := (byteCount_isLeast span).1
    calc 256 ^ byteCount span
      _ = 2 ^ bitLength span * 2 ^ (8 * byteCount span - bitLength span) := by
        rw [← pow_add, Nat.add_sub_cancel' hle, pow_mul, show 2 ^ 8 = 256 from rfl]
      _ ≤ 2 * span * 2 ^ (8 * byteCount span - bitLength span) := Nat.mul_le_mul_right _ (two_pow_bitLength_le hspan)
      _ = _ := by rw [card_accepted, Nat.mul_assoc]

/-- Each number below `span` is left by some string of bytes. -/
theorem IsFair.exists_string {span r : Nat} (h : IsFair span) (hr : r < span) :
    ∃ v : Fin (byteCount span) → Fin 256, masked span (bytesOf v) = r := by
  have hpos : 0 < (Finset.univ.filter fun v : Fin (byteCount span) → Fin 256 => masked span (bytesOf v) = r).card := by
    rw [h.uniform r hr]
    exact Nat.two_pow_pos _
  obtain ⟨v, hv⟩ := Finset.card_pos.1 hpos
  exact ⟨v, (Finset.mem_filter_univ v).1 hv⟩

/-! ## Drawing a number -/

/-- The count of the numbers from one to another. -/
def spanOf (a b : Int) : Nat := (b - a + 1).toNat

theorem spanOf_pos {a b : Int} (hle : a ≤ b) : 0 < spanOf a b := by
  unfold spanOf
  omega

theorem add_mem_Icc_iff {a b : Int} {r : Nat} : a + r ∈ Set.Icc a b ↔ r < spanOf a b := by
  rw [Set.mem_Icc, spanOf]
  omega

/-- A draw of bytes gives an offset or is rejected; other draws are not of the form that is asked for. -/
def offsetDraw (span : Nat) : Draw → Option (Option Nat)
  | .bytes bs => some (offset span bs)
  | _ => none

section OffsetDraw

variable {span r : Nat} {d : Draw}

theorem offsetDraw_eq_some_iff :
    offsetDraw span d = some (some r) ↔ ∃ bs, d = .bytes bs ∧ masked span bs < span ∧ r = masked span bs := by
  cases d with
  | bytes bs =>
    rw [offsetDraw, offset_eq, Option.some.injEq]
    split
    · rename_i hlt
      constructor
      · intro h
        exact ⟨bs, rfl, hlt, (Option.some.inj h).symm⟩
      · rintro ⟨bs', heq, -, rfl⟩
        rw [Draw.bytes.inj heq]
    · rename_i hlt
      refine iff_of_false nofun ?_
      rintro ⟨bs', heq, hlt', -⟩
      exact hlt (Draw.bytes.inj heq ▸ hlt')
  | real x => exact iff_of_false nofun fun ⟨_, h, _⟩ => nomatch h
  | whole n => exact iff_of_false nofun fun ⟨_, h, _⟩ => nomatch h

theorem offsetDraw_eq_none_iff :
    offsetDraw span d = some none ↔ ∃ bs, .bytes bs = d ∧ span ≤ masked span bs := by
  cases d with
  | bytes bs =>
    rw [offsetDraw, offset_eq, Option.some.injEq]
    split
    · rename_i hlt
      refine iff_of_false nofun ?_
      rintro ⟨bs', heq, hle⟩
      exact absurd (Draw.bytes.inj heq ▸ hle) (Nat.not_le.2 hlt)
    · rename_i hlt
      exact iff_of_true rfl ⟨bs, rfl, Nat.not_lt.1 hlt⟩
  | real x => exact iff_of_false nofun fun ⟨_, h, _⟩ => nomatch h
  | whole n => exact iff_of_false nofun fun ⟨_, h, _⟩ => nomatch h

/-- The rejected draws are those of strings of bytes that leave a number beyond the range. -/
theorem forall_rejected_iff {draws : List Draw} : (∀ d ∈ draws, offsetDraw span d = some none) ↔
    ∃ rejected : List (List Nat), draws = rejected.map .bytes ∧ ∀ bs ∈ rejected, span ≤ masked span bs := by
  constructor
  · intro h
    induction draws with
    | nil => exact ⟨[], rfl, List.forall_mem_nil _⟩
    | cons d draws ih =>
      obtain ⟨hd, hdraws⟩ := List.forall_mem_cons.1 h
      obtain ⟨bs, rfl, hbs⟩ := offsetDraw_eq_none_iff.1 hd
      obtain ⟨rejected, rfl, hrejected⟩ := ih hdraws
      exact ⟨bs :: rejected, rfl, List.forall_mem_cons.2 ⟨hbs, hrejected⟩⟩
  · rintro ⟨rejected, rfl, h⟩ d hd
    obtain ⟨bs, hbs, rfl⟩ := List.mem_map.1 hd
    exact offsetDraw_eq_none_iff.2 ⟨bs, rfl, h bs hbs⟩

end OffsetDraw

/-- How a number from `a` up to `b` is drawn. -/
structure DrawsBetween (low high : Operand) (a b : Int) : Prop where
  /-- The first string of bytes that is accepted gives the number; the draws before it are rejected, the ones
  behind it are left. Every request is for the same number of bytes. -/
  gives_iff : ∀ draws x record, runOn (integer low high) draws = (.ok x, record) ↔
    ∃ (rejected : List (List Nat)) (bs : List Nat),
      draws = rejected.map .bytes ++ .bytes bs :: record.remaining ∧
      (∀ r ∈ rejected, spanOf a b ≤ masked (spanOf a b) r) ∧ masked (spanOf a b) bs < spanOf a b ∧
      x = ⟨a + masked (spanOf a b) bs, none⟩ ∧
      record.requests = List.replicate (rejected.length + 1) (.bytes (byteCount (spanOf a b)))
  /-- If every string is rejected, the source runs out. -/
  exhausts : ∀ rejected : List (List Nat), (∀ r ∈ rejected, spanOf a b ≤ masked (spanOf a b) r) →
    runOn (integer low high) (rejected.map .bytes) = (.error .exhausted,
      ⟨[], List.replicate (rejected.length + 1) (.bytes (byteCount (spanOf a b)))⟩)
  mem : ∀ draws x record, runOn (integer low high) draws = (.ok x, record) → x.value ∈ Set.Icc a b
  /-- The accepted numbers that strings of this many bytes leave are the offsets in the range. -/
  bijOn : Set.BijOn (fun r : Nat => a + r)
    {r | r < spanOf a b ∧ ∃ v : Fin (byteCount (spanOf a b)) → Fin 256, masked (spanOf a b) (bytesOf v) = r}
    (Set.Icc a b)
  fair : IsFair (spanOf a b)

section Draw

variable {low high : Operand} {a b : Int} (hlow : low.toWhole = .ok a) (hhigh : high.toWhole = .ok b) (hle : a ≤ b)

include hlow hhigh hle

theorem integer_eq : integer low high =
    askUntil (.bytes (byteCount (spanOf a b))) (offsetDraw (spanOf a b)) >>= fun r => pure ⟨a + r, none⟩ := by
  have hform : offsetDraw (spanOf a b) = fun
      | .bytes bs => some (offset (spanOf a b) bs)
      | _ => none := by
    funext d
    cases d <;> rfl
  unfold integer
  rw [hlow, hhigh, hform]
  change (if b < a then _ else _) = _
  rw [if_neg (Int.not_lt.2 hle)]
  rfl

theorem gives_integer_iff {s s' : Record} {x : Integer} : Gives (integer low high) s x s' ↔
    ∃ (rejected : List (List Nat)) (bs : List Nat),
      s.remaining = rejected.map .bytes ++ .bytes bs :: s'.remaining ∧
      (∀ r ∈ rejected, spanOf a b ≤ masked (spanOf a b) r) ∧ masked (spanOf a b) bs < spanOf a b ∧
      x = ⟨a + masked (spanOf a b) bs, none⟩ ∧
      s'.requests = List.replicate (rejected.length + 1) (.bytes (byteCount (spanOf a b))) ++ s.requests := by
  rw [integer_eq hlow hhigh hle, gives_bind_iff]
  constructor
  · rintro ⟨r, t, hask, hpure⟩
    obtain ⟨rfl, rfl⟩ := gives_pure_iff.1 hpure
    obtain ⟨draws, ⟨d, hdraws, hd⟩, hrejects, hrequests⟩ := gives_askUntil_iff.1 hask
    obtain ⟨rejected, rfl, hrejected⟩ := forall_rejected_iff.1 hrejects
    obtain ⟨bs, rfl, hbs, rfl⟩ := offsetDraw_eq_some_iff.1 hd
    rw [List.length_map] at hrequests
    exact ⟨rejected, bs, hdraws, hrejected, hbs, rfl, hrequests⟩
  · rintro ⟨rejected, bs, hdraws, hrejected, hbs, rfl, hrequests⟩
    refine ⟨masked (spanOf a b) bs, s', gives_askUntil_iff.2 ⟨rejected.map .bytes, ?_, ?_, ?_⟩, gives_pure_iff.2 ⟨rfl, rfl⟩⟩
    · exact ⟨.bytes bs, hdraws, offsetDraw_eq_some_iff.2 ⟨bs, rfl, hbs, rfl⟩⟩
    · exact forall_rejected_iff.2 ⟨rejected, rfl, hrejected⟩
    · rw [List.length_map, hrequests]

/-- A number between two bounds is the lower one and the first accepted draw; each number of the range can be
drawn, and equally often. -/
theorem integer_drawsBetween : DrawsBetween low high a b := by
  have hfair := isFair (spanOf_pos hle).ne'
  refine {
    gives_iff := fun draws x record => ?_
    exhausts := fun rejected hrejected => ?_
    mem := fun draws x record h => ?_
    bijOn := ⟨?_, ?_, ?_⟩
    fair := hfair }
  · change Gives (integer low high) ⟨draws, []⟩ x record ↔ _
    rw [gives_integer_iff hlow hhigh hle]
    simp only [List.append_nil]
  · have hstops := stops_askUntil (r := .bytes (byteCount (spanOf a b))) (forall_rejected_iff.2 ⟨rejected, rfl, hrejected⟩) []
    rw [List.append_nil, List.length_map] at hstops
    rw [integer_eq hlow hhigh hle]
    exact stops_bind_iff.2 (.inl hstops)
  · obtain ⟨rejected, bs, -, -, hbs, rfl, -⟩ := (gives_integer_iff hlow hhigh hle).1 h
    exact add_mem_Icc_iff.2 hbs
  · rintro r ⟨hr, -⟩
    exact add_mem_Icc_iff.2 hr
  · intro r _ r' _ heq
    exact Int.ofNat_inj.1 (Int.add_left_cancel heq)
  · intro x hx
    obtain ⟨r, rfl⟩ : ∃ r : Nat, x = a + r := ⟨(x - a).toNat, by have := hx.1; omega⟩
    have hr := add_mem_Icc_iff.1 hx
    exact ⟨r, ⟨hr, hfair.exists_string hr⟩, rfl⟩

end Draw

/-- A full byte more than the range has: of two bytes nine bits are kept, and the first two bytes are rejected. -/
theorem integer_drawsBetween_byte : (Operand.whole 0).toWhole = .ok 0 ∧ (Operand.whole 255).toWhole = .ok 255 ∧
    DrawsBetween (.whole 0) (.whole 255) 0 255 ∧
    runOn (integer (.whole 0) (.whole 255)) [.bytes [255, 255], .bytes [255, 254], .whole 7] =
      (.ok ⟨255, none⟩, ⟨[.whole 7], [.bytes 2, .bytes 2]⟩) := by
  have hdraws := @integer_drawsBetween (.whole 0) (.whole 255) 0 255 rfl rfl (by decide)
  refine ⟨rfl, rfl, hdraws, (hdraws.gives_iff _ _ _).2 ⟨[[255, 255]], [255, 254], rfl, ?_, ?_, rfl, rfl⟩⟩
  · decide
  · decide

end Reckon.Random
