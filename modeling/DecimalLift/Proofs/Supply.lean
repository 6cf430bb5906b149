/-!
# Ids that are drawn one after the other

Ids come from a counter of 32 bits. After the last one it starts again at zero, and then an id can
come twice.

* `draws` — the ids that are drawn from a next id on, and `draws_add`, drawing some and then more.
* `Supplies` — so many ids are left that the counter does not start again. Then no id comes twice
  (`Supplies.nodup`), the ids drawn are those from the old next id up to the new one
  (`Supplies.mem_iff`), and together with old ids they stay distinct (`Supplies.renew`).
-/

set_option autoImplicit false

namespace DecimalLift

/-- The `n` ids that are drawn from `first` on. -/
def draws (first : UInt32) (n : Nat) : List UInt32 := (List.range n).map fun k => first + .ofNat k

/-- From `first` on, `n` ids can be drawn before the counter starts again. -/
def Supplies (first : UInt32) (n : Nat) : Prop := first.toNat + n < UInt32.size

instance (first : UInt32) (n : Nat) : Decidable (Supplies first n) :=
  inferInstanceAs (Decidable (_ < _))

variable {first i : UInt32} {m n : Nat}

theorem draws_add (first : UInt32) (m n : Nat) :
    draws first (m + n) = draws first m ++ draws (first + .ofNat m) n := by
  unfold draws
  rw [List.range_add, List.map_append, List.map_map]
  congr 1
  refine List.map_congr_left fun k _ => ?_
  show first + UInt32.ofNat (m + k) = first + .ofNat m + .ofNat k
  rw [UInt32.ofNat_add, UInt32.add_assoc]

theorem draws_one (first : UInt32) : draws first 1 = [first] := by
  show [first + 0] = [first]
  rw [UInt32.add_zero]

theorem mem_draws_of_lt (h : m < n) : first + .ofNat m ∈ draws first n :=
  List.mem_map_of_mem (List.mem_range.2 h)

namespace Supplies

theorem toNat_add (h : Supplies first n) : (first + .ofNat n).toNat = first.toNat + n := by
  unfold Supplies at h
  rw [UInt32.toNat_add, UInt32.toNat_ofNat_of_lt' (by omega), Nat.mod_eq_of_lt h]

theorem of_le (h : Supplies first n) (hle : m ≤ n) : Supplies first m := by
  unfold Supplies at *
  omega

/-- The numbers of the ids are consecutive. -/
theorem map_toNat (h : Supplies first n) :
    (draws first n).map UInt32.toNat = List.range' first.toNat n := by
  rw [draws, List.map_map, List.range'_eq_map_range]
  refine List.map_congr_left fun k hk => ?_
  exact (h.of_le (Nat.le_of_lt (List.mem_range.1 hk))).toNat_add

/-- **No id is drawn twice.** -/
theorem nodup (h : Supplies first n) : (draws first n).Nodup := by
  have hnumbers : ((draws first n).map UInt32.toNat).Nodup := by
    rw [h.map_toNat]
    exact List.nodup_range'
  exact (List.pairwise_map.1 hnumbers).imp fun hne heq => hne (congrArg UInt32.toNat heq)

/-- **The ids drawn are those from the old next id up to the new one.** -/
theorem mem_iff (h : Supplies first n) : i ∈ draws first n ↔ first ≤ i ∧ i < first + .ofNat n := by
  have hmem : i ∈ draws first n ↔ i.toNat ∈ (draws first n).map UInt32.toNat :=
    by simp [List.mem_map, UInt32.toNat_inj]
  rw [hmem, h.map_toNat, List.mem_range'_1, UInt32.le_iff_toNat_le, UInt32.lt_iff_toNat_lt,
    h.toNat_add]

theorem le (h : Supplies first n) : first ≤ first + .ofNat n := by
  rw [UInt32.le_iff_toNat_le, h.toNat_add]
  exact Nat.le_add_right _ _

/-- **Old ids and drawn ones stay distinct, and below the counter**: so do those of `new`, if each of
them occurs no more often than it was there and was drawn. -/
theorem renew {old new : List UInt32} (h : Supplies first n) (hnodup : old.Nodup)
    (hbelow : ∀ i ∈ old, i < first)
    (hcount : ∀ i, new.count i ≤ old.count i + (draws first n).count i) :
    new.Nodup ∧ ∀ i ∈ new, i < first + .ofNat n := by
  constructor
  · rw [List.nodup_iff_count]
    intro i
    have hle := hcount i
    by_cases hi : i ∈ old
    · -- an old id is not drawn
      have hfresh : i ∉ draws first n := fun hmem =>
        UInt32.not_lt.2 (h.mem_iff.1 hmem).1 (hbelow i hi)
      rw [List.count_eq_zero.2 hfresh, Nat.add_zero] at hle
      exact Nat.le_trans hle (List.nodup_iff_count.1 hnodup i)
    · rw [List.count_eq_zero.2 hi, Nat.zero_add] at hle
      exact Nat.le_trans hle (List.nodup_iff_count.1 h.nodup i)
  · intro i hi
    have hpos := Nat.lt_of_lt_of_le (List.count_pos_iff.2 hi) (hcount i)
    rcases Nat.add_pos_iff_pos_or_pos.1 hpos with hpos | hpos
    · exact UInt32.lt_of_lt_of_le (hbelow i (List.count_pos_iff.1 hpos)) h.le
    · exact (h.mem_iff.1 (List.count_pos_iff.1 hpos)).2

end Supplies

end DecimalLift
