import VisualEncoding.Proofs.Order.Ranks
import VisualEncoding.Proofs.Order.Bisect
import VisualEncoding.Proofs.Scale.UsableThresholds

/-!
# Groups of a sample

In exact arithmetic the thresholds of a quantile scale are the numbers at evenly spaced ranks of the sample in order
(`thresholds_ofReals`). They ascend, so greater numbers are in later groups, and a number of the sample that does not
repeat is in the group of its rank (`group_atRank`).

> `ofReals_balanced`: a sample of `n` numbers without repetition is divided into groups of `(n - 1) / k` numbers or one
> more. The order in which a sample is given has no part in the scale.
-/

namespace VisualEncoding

open Extended (finite)
open VisualEncoding.Order (between firstRank endRank)

/-! ## Samples in order -/

/-- The numbers of a sample from the least to the greatest. -/
noncomputable def inOrder (sample : List ℝ) : List ℝ := sample.mergeSort fun a b => decide (a ≤ b)

/-- The number at a rank, counted from zero; behind the last rank the last number. -/
noncomputable def atRank (as : List ℝ) (i : ℕ) : ℝ := (as[min i (as.length - 1)]?).getD 0

variable {sample sample' as : List ℝ} {i j m : ℕ}

theorem inOrder_perm (sample : List ℝ) : (inOrder sample).Perm sample := List.mergeSort_perm ..

theorem inOrder_ascending (sample : List ℝ) : (inOrder sample).Pairwise (· ≤ ·) := by
  have htrans : ∀ a b c : ℝ, decide (a ≤ b) = true → decide (b ≤ c) = true → decide (a ≤ c) = true := by
    intro a b c hab hbc
    exact decide_eq_true ((of_decide_eq_true hab).trans (of_decide_eq_true hbc))
  have htotal : ∀ a b : ℝ, (decide (a ≤ b) || decide (b ≤ a)) = true := by
    intro a b
    rw [Bool.or_eq_true, decide_eq_true_iff, decide_eq_true_iff]
    exact le_total a b
  exact (List.pairwise_mergeSort htrans htotal sample).imp of_decide_eq_true

theorem inOrder_strict (h : sample.Nodup) : (inOrder sample).Pairwise (· < ·) := by
  have hnodup : (inOrder sample).Pairwise (· ≠ ·) := (inOrder_perm sample).nodup_iff.mpr h
  exact (inOrder_ascending sample).imp₂ (fun _ _ hle hne => lt_of_le_of_ne hle hne) hnodup

/-- Samples with the same numbers are the same in order. -/
theorem inOrder_eq_of_perm (h : sample'.Perm sample) : inOrder sample' = inOrder sample :=
  List.Perm.eq_of_pairwise (fun _ _ _ _ => le_antisymm) (inOrder_ascending sample') (inOrder_ascending sample)
    ((inOrder_perm sample').trans (h.trans (inOrder_perm sample).symm))

theorem getElem?_eq_atRank (h : i < as.length) : as[i]? = some (atRank as i) := by
  unfold atRank
  rw [Nat.min_eq_left (Nat.le_sub_one_of_lt h), List.getElem?_eq_getElem h]
  rfl

theorem map_atRank (as : List ℝ) : (List.range as.length).map (atRank as) = as := by
  refine List.ext_getElem? fun i => ?_
  rw [List.getElem?_map]
  rcases Nat.lt_or_ge i as.length with hlt | hge
  · rw [List.getElem?_range hlt, getElem?_eq_atRank hlt, Option.map_some]
  · rw [List.getElem?_eq_none (by rwa [List.length_range]), List.getElem?_eq_none hge, Option.map_none]

/-- An order of the numbers of a list is one of the numbers at its ranks. -/
theorem atRank_pairwise {r : ℝ → ℝ → Prop} (h : as.Pairwise r) (hij : i < j) (hj : j < as.length) :
    r (atRank as i) (atRank as j) := by
  have hi := getElem?_eq_atRank (hij.trans hj)
  have hj' := getElem?_eq_atRank hj
  rw [List.getElem?_eq_getElem (hij.trans hj), Option.some.injEq] at hi
  rw [List.getElem?_eq_getElem hj, Option.some.injEq] at hj'
  rw [← hi, ← hj']
  exact List.pairwise_iff_getElem.mp h i j _ hj hij

theorem atRank_mono (h : as.Pairwise (· ≤ ·)) : Monotone (atRank as) := by
  intro i j hij
  have hsame : ∀ l, atRank as l = atRank as (min l (as.length - 1)) := by
    intro l
    unfold atRank
    rw [Nat.min_assoc, Nat.min_self]
  rw [hsame i, hsame j]
  rcases Nat.eq_or_lt_of_le (min_le_min_right (as.length - 1) hij) with heq | hlt
  · rw [heq]
  · exact atRank_pairwise h hlt (by omega)

/-! ## Thresholds -/

theorem quantileOf?_nil {α : Type} [Scalar α] (p : α) : quantileOf? [] p = none := by
  unfold quantileOf?
  split
  · rfl
  · split
    · rfl
    · split <;> rfl

/-- A quantile is the number at a part of the way from the first rank to the last. -/
theorem quantileOf?_map (has : as ≠ []) {p : ℝ} (hp : 0 < p) (hp1 : p < 1) :
    quantileOf? (as.map finite) (finite p) = some (finite (between (atRank as) ((as.length - 1 : ℕ) * p))) := by
  have hpos := List.length_pos_iff.mpr has
  have hlow : finite p ≤ 0 ↔ p ≤ 0 := by rw [Extended.zero_eq, Extended.finite_le]
  have hhigh : 1 ≤ finite p ↔ 1 ≤ p := by rw [Extended.one_eq, Extended.finite_le]
  unfold quantileOf?
  rw [Extended.isNaN_finite, if_neg Bool.false_ne_true, List.length_map]
  by_cases hone : as.length = 1
  · -- a single number stands at all ranks
    obtain ⟨v, rfl⟩ := List.length_eq_one_iff.mp hone
    have hrank : (([v].length - 1 : ℕ) : ℝ) * p = ((0 : ℕ) : ℝ) := by simp
    rw [if_pos (.inr hone), hrank, Order.between_natCast]
    rfl
  · rw [if_neg (not_or.mpr ⟨hlow.not.mpr hp.not_ge, hone⟩), if_neg (hhigh.not.mpr hp1.not_ge)]
    set r : ℝ := (as.length - 1 : ℕ) * p
    have hlast : (0 : ℝ) < (as.length - 1 : ℕ) := Nat.cast_pos.mpr (by omega)
    have hnonneg : 0 ≤ r := (mul_pos hlast hp).le
    have hbefore : ⌊r⌋₊ < as.length - 1 := (Nat.floor_lt hnonneg).mpr (mul_lt_of_lt_one_right hlast hp1)
    have hrank : Scalar.ofInt ((as.length - 1 : ℕ) : ℤ) * finite p = finite r := by
      rw [Extended.ofInt_eq, Extended.finite_mul, Int.cast_natCast]
    have hbelow : (Scalar.truncate (Scalar.floor (finite r))).toNat = ⌊r⌋₊ := by
      rw [Extended.floor_finite]
      show (Extended.truncate (finite _)).toNat = _
      rw [Extended.truncate_intCast, Int.floor_toNat]
    dsimp only
    rw [hrank, hbelow, List.getElem?_map, List.getElem?_map, getElem?_eq_atRank (by omega),
      getElem?_eq_atRank (by omega)]
    simp only [Option.map_some, Extended.ofInt_eq, Extended.finite_sub, Extended.finite_mul, Extended.finite_add,
      Int.cast_natCast]
    rfl

namespace Quantile

variable {range : List (Value Extended)}

/-- The rank at which a group ends, of `k` groups of `n` numbers. -/
noncomputable def endingRank (n k i : ℕ) : ℝ := (n - 1 : ℕ) * ((i + 1) / k)

/-- A scale with a sample of real numbers. -/
noncomputable def ofReals (sample : List ℝ) (range : List (Value Extended)) : Quantile Extended :=
  ofSample (sample.map finite) range

theorem ofReals_eq (sample : List ℝ) (range : List (Value Extended)) :
    ofReals sample range = { sample := (inOrder sample).map finite, range } := by
  have hdefined : (sample.map finite).filter (fun x => !Scalar.isNaN x) = sample.map finite := by
    refine List.filter_eq_self.mpr fun x hx => ?_
    obtain ⟨x, -, rfl⟩ := List.mem_map.mp hx
    rfl
  have hsorted : (inOrder sample).map finite
      = (sample.map finite).mergeSort Scalar.sortsBefore := by
    unfold inOrder
    exact List.map_mergeSort fun a _ b _ => decide_eq_decide.mpr Extended.finite_le.symm
  unfold ofReals ofSample
  rw [hdefined, hsorted]

/-- The order in which a sample is given has no part in the scale. -/
theorem ofReals_eq_of_perm (h : sample'.Perm sample) (range : List (Value Extended)) :
    ofReals sample' range = ofReals sample range := by
  rw [ofReals_eq, ofReals_eq, inOrder_eq_of_perm h]

/-- The groups end at evenly spaced ranks. -/
theorem thresholds_ofReals (hsample : sample ≠ []) (range : List (Value Extended)) :
    (ofReals sample range).thresholds
      = ((List.range (range.length - 1)).map fun i =>
          between (atRank (inOrder sample)) (endingRank sample.length range.length i)).map finite := by
  have hlength : (inOrder sample).length = sample.length := (inOrder_perm sample).length_eq
  have hsorted : inOrder sample ≠ [] := by
    rw [← List.length_pos_iff, hlength]
    exact List.length_pos_iff.mpr hsample
  have hquantile : ∀ i ∈ List.range (range.length - 1),
      quantileOf? ((inOrder sample).map finite) (Scalar.ofInt (i + 1) / Scalar.ofInt range.length)
        = some (finite (between (atRank (inOrder sample)) (endingRank sample.length range.length i))) := by
    intro i hi
    have hi := List.mem_range.mp hi
    have hk : (0 : ℝ) < range.length := Nat.cast_pos.mpr (by omega)
    have hshare : (Scalar.ofInt (i + 1) / Scalar.ofInt range.length : Extended)
        = finite ((i + 1) / range.length) := by
      rw [Extended.ofInt_eq, Extended.ofInt_eq, Int.cast_natCast, Extended.finite_div hk.ne']
      push_cast
      rfl
    have hbelow : ((i : ℝ) + 1) / range.length < 1 := by
      rw [div_lt_one hk]
      exact_mod_cast (by omega : i + 1 < range.length)
    rw [hshare, quantileOf?_map hsorted (by positivity) hbelow, hlength]
    rfl
  rw [ofReals_eq, List.map_map]
  exact (List.filterMap_congr hquantile).trans (congrFun List.filterMap_eq_map _)

theorem thresholds_of_nil (range : List (Value Extended)) :
    (ofReals [] range).thresholds = [] := by
  have hnil : inOrder [] = [] := List.mergeSort_nil
  rw [ofReals_eq, hnil]
  exact List.filterMap_eq_nil_iff.mpr fun i _ => quantileOf?_nil _

theorem endingRank_nonneg (n k i : ℕ) : 0 ≤ endingRank n k i := by
  unfold endingRank
  positivity

theorem endingRank_mono (n k : ℕ) (hij : i ≤ j) : endingRank n k i ≤ endingRank n k j := by
  unfold endingRank
  gcongr

/-- Thresholds ascend. -/
theorem thresholds_ascending (sample : List ℝ) (range : List (Value Extended)) :
    (ofReals sample range).thresholds.Pairwise (· ≤ ·) := by
  by_cases hsample : sample = []
  · subst hsample
    rw [thresholds_of_nil]
    exact List.Pairwise.nil
  · rw [thresholds_ofReals hsample, List.pairwise_map, List.pairwise_map]
    have hmono := atRank_mono (inOrder_ascending sample)
    refine List.pairwise_lt_range.imp fun hij => Extended.finite_le.mpr ?_
    exact Order.between_mono hmono (endingRank_nonneg ..) (endingRank_mono _ _ hij.le)

theorem length_thresholds_le (s : Quantile Extended) : s.thresholds.length ≤ s.range.length - 1 := by
  have hlength := List.length_filterMap_le
    (fun i : ℕ => quantileOf? s.sample (Scalar.ofInt (i + 1) / Scalar.ofInt s.range.length))
    (List.range (s.range.length - 1))
  rwa [List.length_range] at hlength

/-! ## Groups -/

/-- The group of a number, counted from zero. -/
def group {α : Type} [Scalar α] (s : Quantile α) (x : α) : ℕ := Order.countUpTo s.thresholds x

variable {k c : ℕ}

theorem group_lt (hrange : range ≠ []) (sample : List ℝ) (x : Extended) :
    (ofReals sample range).group x < range.length := by
  have hpos := List.length_pos_iff.mpr hrange
  obtain ⟨hle, -, -⟩ := Order.countUpTo_spec (Order.searchable (thresholds_ascending sample range) x)
  have hlength := length_thresholds_le (ofReals sample range)
  have hsame : (ofReals sample range).range = range := rfl
  rw [hsame] at hlength
  unfold group
  omega

/-- A group ends ahead of a number of the sample if the number has the first rank behind it, or a later one. -/
theorem threshold_le_iff (hnodup : sample.Nodup) (hi : i + 1 < k) :
    between (atRank (inOrder sample)) (endingRank sample.length k i) ≤ atRank (inOrder sample) m ↔
      firstRank (sample.length - 1) k (i + 1) ≤ m := by
  have hk : (0 : ℝ) < k := Nat.cast_pos.mpr (by omega)
  have hlength : (inOrder sample).length = sample.length := (inOrder_perm sample).length_eq
  have hstrict : ∀ i j, i < j → j ≤ sample.length - 1 →
      atRank (inOrder sample) i < atRank (inOrder sample) j := by
    intro i j hij hj
    exact atRank_pairwise (inOrder_strict hnodup) hij (by omega)
  have hlast : endingRank sample.length k i ≤ (sample.length - 1 : ℕ) := by
    have hshare : ((i : ℝ) + 1) / k ≤ 1 := by
      rw [div_le_one hk]
      exact_mod_cast hi.le
    exact mul_le_of_le_one_right (Nat.cast_nonneg _) hshare
  rw [Order.between_le_iff (atRank_mono (inOrder_ascending sample)) hstrict (endingRank_nonneg ..) hlast,
    Order.firstRank_le_iff (by omega), endingRank, mul_div_assoc', div_le_iff₀ hk, mul_comm (m : ℝ)]
  exact_mod_cast Iff.rfl

/-- A number of a sample without repetition lies behind the groups that end at its rank or ahead of it. -/
theorem lt_group_iff (hnodup : sample.Nodup) (hsample : sample ≠ []) :
    i < (ofReals sample range).group (finite (atRank (inOrder sample) m)) ↔
      i + 1 < range.length ∧ firstRank (sample.length - 1) range.length (i + 1) ≤ m := by
  have hsearch := Order.searchable (thresholds_ascending sample range) (finite (atRank (inOrder sample) m))
  unfold group
  rw [Order.lt_countUpTo_iff hsearch, thresholds_ofReals hsample, List.getElem?_map, List.getElem?_map]
  rcases Nat.lt_or_ge i (range.length - 1) with hi | hi
  · have hmore : i + 1 < range.length := by omega
    rw [List.getElem?_range hi, Option.map_some, Option.map_some]
    simp only [Option.some.injEq, exists_eq_left', Extended.finite_le]
    rw [threshold_le_iff hnodup hmore]
    exact (and_iff_right hmore).symm
  · have hno : ¬ i + 1 < range.length := by omega
    rw [List.getElem?_eq_none (by rwa [List.length_range])]
    refine iff_of_false ?_ fun h => hno h.1
    rintro ⟨_, hnone, -⟩
    cases hnone

/-- A number of a sample without repetition is in the group of its rank. -/
theorem group_atRank (hnodup : sample.Nodup) (hm : m < sample.length) (hc : c < range.length) :
    (ofReals sample range).group (finite (atRank (inOrder sample) m)) = c ↔
      firstRank (sample.length - 1) range.length c ≤ m ∧ m < endRank (sample.length - 1) range.length c := by
  have hsample : sample ≠ [] := List.ne_nil_of_length_pos (Nat.zero_lt_of_lt hm)
  have hbehind : ∀ i, i < (ofReals sample range).group (finite (atRank (inOrder sample) m)) ↔
      i + 1 < range.length ∧ firstRank (sample.length - 1) range.length (i + 1) ≤ m :=
    fun i => lt_group_iff hnodup hsample
  have hnext := hbehind c
  unfold endRank
  -- the number lies behind the groups before this one, and not behind this one
  cases c with
  | zero =>
    have hfirst : firstRank (sample.length - 1) range.length 0 = 0 :=
      Nat.le_zero.mp ((Order.firstRank_le_iff hc).mpr (Nat.zero_le _))
    rw [hfirst]
    split <;> omega
  | succ c =>
    have hthis := hbehind c
    split <;> omega

/-- The groups of a sample without repetition are its ranks in `k` groups. -/
theorem countP_group (hnodup : sample.Nodup) (hsample : sample ≠ []) (hc : c < range.length) :
    sample.countP (fun x => (ofReals sample range).group (finite x) = c)
      = Nat.count (fun m => firstRank (sample.length - 1) range.length c ≤ m ∧
          m < endRank (sample.length - 1) range.length c) (sample.length - 1 + 1) := by
  have hpos := List.length_pos_iff.mpr hsample
  have hperm := inOrder_perm sample
  have hranks := map_atRank (inOrder sample)
  rw [hperm.length_eq] at hranks
  rw [← hperm.countP_eq, ← hranks, List.countP_map, Nat.sub_add_cancel hpos]
  unfold Nat.count
  refine List.countP_congr fun m hm => ?_
  rw [Function.comp_apply, decide_eq_true_iff, decide_eq_true_iff]
  exact group_atRank hnodup (List.mem_range.mp hm) hc

/-- **Groups of equal size.** A sample of `n` numbers without repetition is divided into groups of `(n - 1) / k` numbers
or one more. Of any sample the thresholds ascend, a number has the entry of its group and a greater one that of the
same or a later group, and the same numbers in another order make the same scale. -/
theorem ofReals_balanced (hrange : range ≠ []) (sample : List ℝ) :
    (sample.Nodup → sample ≠ [] → ∀ c < range.length,
      sample.countP (fun x => (ofReals sample range).group (finite x) = c) = (sample.length - 1) / range.length ∨
        sample.countP (fun x => (ofReals sample range).group (finite x) = c)
          = (sample.length - 1) / range.length + 1) ∧
      (ofReals sample range).thresholds.Pairwise (· ≤ ·) ∧
      (∀ x, Scalar.isNaN x = false →
        range[(ofReals sample range).group x]? = some ((ofReals sample range).apply (.number x))) ∧
      (∀ x y, x ≤ y → (ofReals sample range).group x ≤ (ofReals sample range).group y) ∧
      ∀ sample' : List ℝ, sample'.Perm sample → ofReals sample' range = ofReals sample range := by
  have hpos := List.length_pos_iff.mpr hrange
  refine ⟨fun hnodup hsample c hc => ?_, thresholds_ascending sample range, fun x hx => ?_, fun x y hxy => ?_,
    fun sample' hperm => ofReals_eq_of_perm hperm range⟩
  · rw [countP_group hnodup hsample hc]
    exact Order.count_group hpos hc
  · rw [apply_number _ hx]
    exact getElem?_entryFor (group_lt hrange sample x)
  · exact Order.countUpTo_mono (thresholds_ascending sample range) hxy

/-- Three numbers in two groups. -/
theorem ofReals_balanced_threeNumbers :
    ([.string "low", .string "high"] : List (Value Extended)) ≠ [] ∧ ([3, 1, 2] : List ℝ).Nodup ∧
      ∀ c < 2,
        [3, 1, 2].countP (fun x => (ofReals [3, 1, 2] [.string "low", .string "high"]).group (finite x) = c) = 1 ∨
          [3, 1, 2].countP (fun x => (ofReals [3, 1, 2] [.string "low", .string "high"]).group (finite x) = c) = 2 := by
  have hrange : ([.string "low", .string "high"] : List (Value Extended)) ≠ [] := List.cons_ne_nil _ _
  have hnodup : ([3, 1, 2] : List ℝ).Nodup := by norm_num
  obtain ⟨hgroups, -⟩ := ofReals_balanced hrange [3, 1, 2]
  exact ⟨hrange, hnodup, hgroups hnodup (List.cons_ne_nil _ _)⟩

end Quantile

end VisualEncoding
