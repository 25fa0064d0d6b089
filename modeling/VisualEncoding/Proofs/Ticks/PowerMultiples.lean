import VisualEncoding.Proofs.Ticks.WholePowers

/-!
# Multiples of powers in a log span

A log span that is short for its base shows whole multiples of powers, row by row, one row for each power. The rows
are searched until a multiple lies beyond the span. As the multiples ascend, within a row and from row to row, nothing
is lost by stopping there (`scanRows_eq`): what is found are all the multiples in the span (`multiplesWithin_eq`). A
negative span has the rows of a positive one in the mirror, the greatest multiples first.
-/

namespace VisualEncoding.Ticks

open Extended (finite)

variable {x y lo hi base : ℝ} {reflected : Bool} {count : ℕ}

/-! ## Searching ascending rows -/

/-- The numbers of a list that lie in an interval. -/
noncomputable def within (lo hi : ℝ) (ts : List ℝ) : List ℝ := ts.filter fun t => decide (lo ≤ t ∧ t ≤ hi)

theorem mem_within {ts : List ℝ} {t : ℝ} : t ∈ within lo hi ts ↔ t ∈ ts ∧ lo ≤ t ∧ t ≤ hi := by
  simp [within]

theorem within_cons_of_lt {ts : List ℝ} {t : ℝ} (h : t < lo) : within lo hi (t :: ts) = within lo hi ts := by
  simp [within, h.not_ge]

theorem within_cons_of_mem {ts : List ℝ} {t : ℝ} (hlo : lo ≤ t) (hhi : t ≤ hi) :
    within lo hi (t :: ts) = t :: within lo hi ts := by
  simp [within, hlo, hhi]

theorem within_append (ts us : List ℝ) : within lo hi (ts ++ us) = within lo hi ts ++ within lo hi us :=
  List.filter_append ts us

/-- Nothing of what lies beyond an interval lies in it. -/
theorem within_of_forall_lt {ts : List ℝ} (h : ∀ t ∈ ts, hi < t) : within lo hi ts = [] := by
  refine List.filter_eq_nil_iff.mpr fun t ht => ?_
  simp [(h t ht).not_ge]

/-- A row of numbers that are computed by their place. -/
noncomputable def row (value : ℕ → ℝ) (i n : ℕ) : List ℝ := (List.range' i n).map value

/-- On an ascending row the search finds what lies in the interval, and tells whether anything lies beyond. -/
theorem scanUpTo_eq (hle : lo ≤ hi) (value : ℕ → ℝ) (n i : ℕ) (found : List Extended)
    (hascending : (row value i n).Pairwise (· < ·)) :
    scanUpTo (finite lo) (finite hi) (fun k => finite (value k)) n i found =
      (((within lo hi (row value i n)).map finite).reverse ++ found, (row value i n).any fun t => decide (hi < t)) := by
  induction n generalizing i found with
  | zero => rfl
  | succ n ih =>
    have hrow : row value i (n + 1) = value i :: row value (i + 1) n := by
      simp [row, List.range'_succ]
    rw [hrow] at hascending ⊢
    obtain ⟨hfirst, hrest⟩ := List.pairwise_cons.mp hascending
    rw [scanUpTo]
    simp only [Extended.finite_lt]
    by_cases hbelow : value i < lo
    · rw [if_pos hbelow, ih (i + 1) found hrest, within_cons_of_lt hbelow]
      simp [(hbelow.trans_le hle).not_gt]
    · rw [if_neg hbelow]
      by_cases hbeyond : hi < value i
      · -- all that follows lies beyond, too
        have hnone : within lo hi (value i :: row value (i + 1) n) = [] := by
          refine within_of_forall_lt ?_
          intro t ht
          rcases List.mem_cons.mp ht with rfl | ht
          · exact hbeyond
          · exact hbeyond.trans (hfirst t ht)
        rw [if_pos hbeyond, hnone]
        simp [hbeyond]
      · rw [if_neg hbeyond, ih (i + 1) _ hrest, within_cons_of_mem (not_lt.mp hbelow) (not_lt.mp hbeyond)]
        simp [hbeyond]

/-- Rows one after the other. -/
noncomputable def rows (value : ℕ → ℕ → ℝ) (width i n : ℕ) : List ℝ :=
  (List.range' i n).flatMap fun r => row (value r) 0 width

/-- If the rows ascend one after the other, the search through them finds what lies in the interval. -/
theorem scanRows_eq (hle : lo ≤ hi) (value : ℕ → ℕ → ℝ) (width n i : ℕ) (found : List Extended)
    (hascending : (rows value width i n).Pairwise (· < ·)) :
    scanRows (finite lo) (finite hi) (fun r k => finite (value r k)) width n i found =
      ((within lo hi (rows value width i n)).map finite).reverse ++ found := by
  induction n generalizing i found with
  | zero => rfl
  | succ n ih =>
    have hrows : rows value width i (n + 1) = row (value i) 0 width ++ rows value width (i + 1) n := by
      simp [rows, List.range'_succ]
    rw [hrows] at hascending ⊢
    obtain ⟨hfirst, hrest, hbetween⟩ := List.pairwise_append.mp hascending
    rw [scanRows, scanUpTo_eq hle (value i) width 0 found hfirst, within_append]
    cases hany : (row (value i) 0 width).any fun t => decide (hi < t) with
    | true =>
      -- one number of the row lies beyond, and so do the rows that follow
      obtain ⟨t, ht, hbeyond⟩ := List.any_eq_true.mp hany
      have hnone : within lo hi (rows value width (i + 1) n) = [] :=
        within_of_forall_lt fun u hu => (of_decide_eq_true hbeyond).trans (hbetween t ht u hu)
      dsimp only
      rw [hnone, List.append_nil]
    | false =>
      dsimp only
      rw [ih (i + 1) _ hrest]
      simp

/-! ## Multiples of powers -/

/-- A whole multiple of a power that stays below the next power; negated on the side of the negative numbers. -/
def IsMultipleOf (base : ℕ) (reflected : Bool) (t : ℝ) : Prop :=
  ∃ k : ℕ, ∃ e : ℤ, 1 ≤ k ∧ k < base ∧ t = if reflected then -(k * (base : ℝ) ^ e) else k * (base : ℝ) ^ e

/-- The multiple in a column of the row of a power; negated ones start with the greatest. -/
noncomputable def multipleAt (base : ℕ) (reflected : Bool) (e : ℤ) (column : ℕ) : ℝ :=
  if reflected then -((base - 1 - column : ℕ) * (base : ℝ) ^ (-e)) else (column + 1 : ℕ) * (base : ℝ) ^ e

/-- Multiples of a lower power are less than those of a higher one. -/
theorem mul_zpow_lt {b k l : ℕ} {e f : ℤ} (hk : k < b) (hl : 1 ≤ l) (hef : e < f) :
    (k : ℝ) * (b : ℝ) ^ e < l * (b : ℝ) ^ f := by
  have hb : (0 : ℝ) < b := by exact_mod_cast (show 0 < b by omega)
  have hbase : (1 : ℝ) ≤ b := by exact_mod_cast (show 1 ≤ b by omega)
  calc (k : ℝ) * (b : ℝ) ^ e < b * (b : ℝ) ^ e := by
        refine mul_lt_mul_of_pos_right ?_ (zpow_pos hb e)
        exact_mod_cast hk
    _ = (b : ℝ) ^ (e + 1) := by rw [zpow_add_one₀ hb.ne', mul_comm]
    _ ≤ (b : ℝ) ^ f := zpow_le_zpow_right₀ hbase (by omega)
    _ ≤ l * (b : ℝ) ^ f := by
        refine le_mul_of_one_le_left (zpow_pos hb f).le ?_
        exact_mod_cast hl

/-- Within a row the multiples ascend, -/
theorem multipleAt_lt_of_column {b : ℕ} (reflected : Bool) (e : ℤ) {c d : ℕ} (hcd : c < d) (hd : d < b - 1) :
    multipleAt b reflected e c < multipleAt b reflected e d := by
  have hb' : (0 : ℝ) < b := by exact_mod_cast Nat.zero_lt_of_lt (Nat.lt_of_lt_of_le hd (Nat.sub_le b 1))
  cases reflected with
  | false =>
    refine mul_lt_mul_of_pos_right ?_ (zpow_pos hb' e)
    exact_mod_cast (show c + 1 < d + 1 by omega)
  | true =>
    refine neg_lt_neg (mul_lt_mul_of_pos_right ?_ (zpow_pos hb' (-e)))
    exact_mod_cast (show b - 1 - d < b - 1 - c by omega)

/-- and from row to row. -/
theorem multipleAt_lt_of_row {b : ℕ} (reflected : Bool) {e f : ℤ} (hef : e < f) {c : ℕ} (hc : c < b - 1) (d : ℕ) :
    multipleAt b reflected e c < multipleAt b reflected f d := by
  cases reflected with
  | false => exact mul_zpow_lt (by omega) (by omega) hef
  | true => exact neg_lt_neg (mul_zpow_lt (by omega) (by omega) (by omega))

/-- All multiples of a number of powers from a first one on. -/
noncomputable def multiplesFrom (base : ℕ) (reflected : Bool) (first : ℤ) (n : ℕ) : List ℝ :=
  rows (fun r => multipleAt base reflected (first + r)) (base - 1) 0 n

theorem pairwise_multiplesFrom (b : ℕ) (reflected : Bool) (first : ℤ) (n : ℕ) :
    (multiplesFrom b reflected first n).Pairwise (· < ·) := by
  have hrange : ∀ m, (List.range' 0 m).Pairwise (· < ·) := fun m => List.pairwise_lt_range'
  unfold multiplesFrom rows row
  rw [List.pairwise_flatMap]
  constructor
  · intro r hr
    refine List.pairwise_map.mpr ((hrange (b - 1)).imp_of_mem ?_)
    intro c d hc hd hcd
    simp only [List.mem_range'_1, Nat.zero_add] at hd
    exact multipleAt_lt_of_column reflected _ hcd hd.2
  · refine (hrange n).imp ?_
    intro r r' hr t ht u hu
    obtain ⟨c, hc, rfl⟩ := List.mem_map.mp ht
    obtain ⟨d, -, rfl⟩ := List.mem_map.mp hu
    simp only [List.mem_range'_1, Nat.zero_add] at hc
    exact multipleAt_lt_of_row reflected (by omega) hc.2 d

theorem mem_multiplesFrom {b : ℕ} {first : ℤ} {n : ℕ} {t : ℝ} :
    t ∈ multiplesFrom b reflected first n ↔
      ∃ e, first ≤ e ∧ e < first + n ∧ ∃ c < b - 1, t = multipleAt b reflected e c := by
  unfold multiplesFrom rows row
  simp only [List.mem_flatMap, List.mem_map, List.mem_range'_1, Nat.zero_le, Nat.zero_add, true_and]
  constructor
  · rintro ⟨r, hr, c, hc, rfl⟩
    exact ⟨first + r, by omega, by omega, c, hc, rfl⟩
  · rintro ⟨e, hlo, hhi, c, hc, rfl⟩
    refine ⟨(e - first).toNat, by omega, c, hc, ?_⟩
    rw [show first + ((e - first).toNat : ℤ) = e by omega]

/-- Each multiple stands in one row. -/
theorem isMultipleOf_iff {b : ℕ} {t : ℝ} :
    IsMultipleOf b reflected t ↔ ∃ e, ∃ c < b - 1, t = multipleAt b reflected e c := by
  cases reflected with
  | false =>
    constructor
    · rintro ⟨k, e, hone, hk, rfl⟩
      refine ⟨e, k - 1, by omega, ?_⟩
      simp [multipleAt, Nat.sub_add_cancel hone]
    · rintro ⟨e, c, hc, rfl⟩
      exact ⟨c + 1, e, by omega, by omega, rfl⟩
  | true =>
    constructor
    · rintro ⟨k, e, hone, hk, rfl⟩
      refine ⟨-e, b - 1 - k, by omega, ?_⟩
      simp [multipleAt, show b - 1 - (b - 1 - k) = k by omega]
    · rintro ⟨e, c, hc, rfl⟩
      exact ⟨b - 1 - c, -e, by omega, by omega, rfl⟩

/-- The multiples of a row lie between the powers beside it. -/
theorem multipleAt_bounds {b : ℕ} (reflected : Bool) (e : ℤ) {c : ℕ} (hc : c < b - 1) :
    sidePow b reflected ((e - 1 : ℤ) : ℝ) < multipleAt b reflected e c ∧
      multipleAt b reflected e c < sidePow b reflected ((e + 1 : ℤ) : ℝ) := by
  have hone : ∀ f : ℤ, (b : ℝ) ^ f = (1 : ℕ) * (b : ℝ) ^ f := fun f => by rw [Nat.cast_one, one_mul]
  rw [sidePow_intCast, sidePow_intCast]
  cases reflected with
  | false =>
    rw [if_neg Bool.false_ne_true, if_neg Bool.false_ne_true, hone (e - 1), hone (e + 1)]
    exact ⟨mul_zpow_lt (by omega) (by omega) (by omega), mul_zpow_lt (by omega) (by omega) (by omega)⟩
  | true =>
    rw [if_pos rfl, if_pos rfl, hone (-(e - 1)), hone (-(e + 1))]
    exact ⟨neg_lt_neg (mul_zpow_lt (by omega) (by omega) (by omega)),
      neg_lt_neg (mul_zpow_lt (by omega) (by omega) (by omega))⟩

/-- The multiples that lie between two numbers are in the rows from the power below the lower number on up to the
power above the higher one. -/
theorem mem_within_multiplesFrom {b : ℕ} {first last : ℤ} (hb : 1 < b) (hx : OnSide reflected lo)
    (hy : OnSide reflected hi) (hfirst : ⌊sideLog b reflected lo⌋ = first) (hlast : ⌈sideLog b reflected hi⌉ = last)
    (t : ℝ) :
    t ∈ within lo hi (multiplesFrom b reflected first (last - first + 1).toNat) ↔
      IsMultipleOf b reflected t ∧ lo ≤ t ∧ t ≤ hi := by
  have hbase : (1 : ℝ) < b := by exact_mod_cast hb
  have hmono := sidePow_strictMono hbase reflected
  rw [mem_within, mem_multiplesFrom, isMultipleOf_iff]
  constructor
  · rintro ⟨⟨e, -, -, c, hc, rfl⟩, hlo, hhi⟩
    exact ⟨⟨e, c, hc, rfl⟩, hlo, hhi⟩
  · rintro ⟨⟨e, c, hc, rfl⟩, hlo, hhi⟩
    obtain ⟨hbelow, habove⟩ := multipleAt_bounds reflected e hc
    have hstart : first ≤ e := by
      have hlt := hlo.trans_lt habove
      rw [← sidePow_sideLog (by linarith) hbase.ne' hx, hmono.lt_iff_lt, ← Int.floor_lt] at hlt
      omega
    have hend : e ≤ last := by
      have hlt := hbelow.trans_le hhi
      rw [← sidePow_sideLog (by linarith) hbase.ne' hy, hmono.lt_iff_lt, ← Int.lt_ceil] at hlt
      omega
    exact ⟨⟨e, hstart, by omega, c, hc, rfl⟩, hlo, hhi⟩

/-! ## Short spans -/

/-- A number within the range of doubles. -/
def IsDoubleSized (x : ℝ) : Prop :=
  ((2 : ℕ) : ℝ) ^ (-1074 : ℤ) ≤ |x| ∧ |x| < ((2 : ℕ) : ℝ) ^ (1024 : ℤ)

theorem isDoubleSized_iff : IsDoubleSized x ↔ (2 : ℝ) ^ (-1074 : ℤ) ≤ |x| ∧ |x| < 2 ^ (1024 : ℤ) := by
  rw [IsDoubleSized, Nat.cast_ofNat]

/-- The logarithm of a number on its side has the size of that of its magnitude. -/
theorem abs_sideLog (base : ℝ) (hx : OnSide reflected x) : |sideLog base reflected x| = |Real.logb base (|x|)| := by
  cases reflected with
  | false => rw [abs_of_pos (show 0 < x from hx), sideLog, if_neg Bool.false_ne_true]
  | true => rw [abs_of_neg (neg_pos.mp hx), sideLog, if_pos rfl, abs_neg]

/-- Logarithms of numbers within the range of doubles are small, to every base from two on. -/
theorem abs_sideLog_le {b : ℕ} (hb : 1 < b) (hx : OnSide reflected x) (hsize : IsDoubleSized x) :
    |sideLog b reflected x| ≤ 1074 := by
  have hbase : (1 : ℝ) < b := by exact_mod_cast hb
  have htwo : (2 : ℝ) ≤ b := by exact_mod_cast hb
  obtain ⟨hlow, hhigh⟩ := isDoubleSized_iff.mp hsize
  have hpos : 0 < |x| := (zpow_pos (by norm_num) _).trans_le hlow
  rw [abs_sideLog (b : ℝ) hx, abs_le]
  constructor
  · rw [Real.le_logb_iff_rpow_le hbase hpos, show (-1074 : ℝ) = ((-1074 : ℤ) : ℝ) by norm_num, Real.rpow_intCast]
    refine le_trans ?_ hlow
    rw [zpow_neg, zpow_neg]
    exact inv_anti₀ (zpow_pos (by norm_num) _) (zpow_le_zpow_left₀ (by norm_num) (by norm_num) htwo)
  · rw [Real.logb_le_iff_le_rpow hbase hpos, show (1074 : ℝ) = ((1074 : ℤ) : ℝ) by norm_num, Real.rpow_intCast]
    calc |x| ≤ (2 : ℝ) ^ (1024 : ℤ) := hhigh.le
      _ ≤ 2 ^ (1074 : ℤ) := zpow_le_zpow_right₀ (by norm_num) (by norm_num)
      _ ≤ (b : ℝ) ^ (1074 : ℤ) := zpow_le_zpow_left₀ (by norm_num) (by norm_num) htwo

theorem multiple_finite {b : ℕ} (hb : 0 < b) (k : ℕ) (e : ℤ) :
    multiple (finite b) k e = finite (k * (b : ℝ) ^ e) := by
  have hbase : (0 : ℝ) < b := by exact_mod_cast hb
  unfold multiple
  rw [Extended.ofInt_eq, Extended.ofInt_eq, Extended.neg_finite, Extended.exp_finite hbase, Extended.exp_finite hbase,
    Int.cast_natCast, ← Int.cast_neg, Real.rpow_intCast, Real.rpow_intCast]
  split
  · rw [Extended.finite_div (zpow_pos hbase _).ne', zpow_neg, div_inv_eq_mul]
  · rw [Extended.finite_mul]

theorem mirroredMultiple_finite {b : ℕ} (hb : 0 < b) (k : ℕ) (e : ℤ) :
    mirroredMultiple (finite b) k e = finite (-(k * (b : ℝ) ^ (-e))) := by
  have hbase : (0 : ℝ) < b := by exact_mod_cast hb
  unfold mirroredMultiple
  rw [Extended.ofInt_eq, Extended.ofInt_eq, Extended.neg_finite, Extended.neg_finite, Extended.exp_finite hbase,
    Extended.exp_finite hbase, Int.cast_natCast, ← Int.cast_neg, Real.rpow_intCast, Real.rpow_intCast]
  split
  · rw [Extended.finite_div (zpow_pos hbase _).ne', zpow_neg, neg_div, div_eq_mul_inv]
  · rw [Extended.finite_mul, neg_mul]

/-- What is looked at in a row are the multiples on the side of the span. -/
theorem candidate_finite {b : ℕ} (hb : 0 < b) (hx : OnSide reflected lo) (e : ℤ) (c : ℕ) :
    (if 0 < finite lo then multiple (finite b) (c + 1) e else mirroredMultiple (finite b) (b - 1 - c) e) =
      finite (multipleAt b reflected e c) := by
  rw [Extended.zero_eq]
  cases reflected with
  | false =>
    have hpos : 0 < lo := hx
    rw [if_pos (Extended.finite_lt.mpr hpos), multiple_finite hb]
    rfl
  | true =>
    have hnot : ¬ finite 0 < finite lo := by
      rw [Extended.finite_lt]
      exact (neg_pos.mp hx).not_gt
    rw [if_neg hnot, mirroredMultiple_finite hb]
    rfl

/-- The multiples in a span are found by searching the rows of its powers. -/
theorem multiplesWithin_eq {b : ℕ} (hb : 1 < b) (hfits : b < 2 ^ 31) (hle : lo ≤ hi) (hx : OnSide reflected lo)
    (hy : OnSide reflected hi) (hxsize : IsDoubleSized lo) (hysize : IsDoubleSized hi) :
    ∃ ts : List ℝ, multiplesWithin (finite lo) (finite hi) (finite b) (finite (sideLog b reflected lo))
        (finite (sideLog b reflected hi)) = ts.map finite ∧
      ts.Pairwise (· < ·) ∧ ∀ t, t ∈ ts ↔ IsMultipleOf b reflected t ∧ lo ≤ t ∧ t ≤ hi := by
  obtain ⟨hlow, hlow'⟩ := abs_le.mp (abs_sideLog_le hb hx hxsize)
  obtain ⟨hhigh, hhigh'⟩ := abs_le.mp (abs_sideLog_le hb hy hysize)
  obtain ⟨first, hfirst⟩ : ∃ first, ⌊sideLog b reflected lo⌋ = first := ⟨_, rfl⟩
  obtain ⟨last, hlast⟩ : ∃ last, ⌈sideLog b reflected hi⌉ = last := ⟨_, rfl⟩
  -- the exponents and the base are read as 32-bit integers
  have hfirst' : -1075 < first ∧ first < 1075 := by
    rw [← hfirst, Int.floor_lt, ← Int.add_one_le_iff, Int.le_floor]
    push_cast
    exact ⟨by linarith, by linarith⟩
  have hlast' : -1075 < last ∧ last < 1075 := by
    rw [← hlast, Int.lt_ceil, ← Int.le_sub_one_iff, Int.ceil_le]
    push_cast
    exact ⟨by linarith, by linarith⟩
  have hbase : Scalar.toInt32 (finite (b : ℝ)) = b := Extended.toInt32_intCast (k := b) (by omega) (by omega)
  have hwidth : ((b : ℤ) - 1).toNat = b - 1 := by omega
  refine ⟨within lo hi (multiplesFrom b reflected first (last - first + 1).toNat), ?_,
    (pairwise_multiplesFrom b reflected _ _).filter _, mem_within_multiplesFrom hb hx hy hfirst hlast⟩
  unfold multiplesWithin
  simp only [Extended.floor_finite, Extended.ceil_finite, hfirst, hlast, hbase, hwidth,
    Extended.toInt32_intCast (show -0x80000000 ≤ first by omega) (by omega),
    Extended.toInt32_intCast (show -0x80000000 ≤ last by omega) (by omega), candidate_finite (show 0 < b by omega) hx]
  rw [scanRows_eq hle (fun r => multipleAt b reflected (first + r)) _ _ _ _ (pairwise_multiplesFrom b reflected _ _),
    List.append_nil, List.reverse_reverse]
  rfl

end VisualEncoding.Ticks
