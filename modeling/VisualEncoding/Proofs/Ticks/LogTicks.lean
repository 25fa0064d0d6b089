import VisualEncoding.Proofs.Ticks.Grids
import VisualEncoding.Proofs.Ticks.PowerMultiples

/-!
# Ticks of a log span

A log span that reaches over few powers of a whole base shows the multiples of these powers, or evenly spaced numbers if
there are too few multiples. A longer span shows powers with evenly spaced logarithms; where it reaches over as many
powers as ticks are asked for, the logarithms are whole (`grid_eq_of_wide`).

> `log_lists_powers`: in exact arithmetic all ticks lie in the span and come in its direction; for a whole base they are
> all the multiples in a short span, if there are enough of them, and whole powers in a long one.
-/

namespace VisualEncoding.Ticks

open Extended (finite)

variable {x y lo hi base : ℝ} {reflected : Bool} {count : ℕ}

/-! ## Long spans -/

/-- Rungs from number zero on are whole. -/
theorem exists_intCast_rung {j : ℤ} (h : 0 ≤ j) : ∃ n : ℤ, rung j = n := by
  obtain ⟨p, hp⟩ := rung_cases j
  obtain ⟨n, rfl⟩ := Int.eq_ofNat_of_zero_le (show 0 ≤ p by omega)
  rcases hp with rfl | rfl | rfl
  · exact ⟨10 ^ n, by simp [rung_one]⟩
  · exact ⟨2 * 10 ^ n, by simp [rung_two]⟩
  · exact ⟨5 * 10 ^ n, by simp [rung_five]⟩

/-- The border to the rung below number zero is at one half, squared. -/
theorem IsNearest.nonneg {length : ℝ} {j : ℤ} (h : IsNearest length j) (hlength : 1 / 2 ≤ length ^ 2) : 0 ≤ j := by
  by_contra hneg
  have hzero : rung 0 = 1 := by simpa using rung_one 0
  have hhalf : rung (-1) = 1 / 2 := by
    have hfive := rung_five (-1)
    norm_num at hfive
    exact hfive
  have hle : rung j ≤ 1 / 2 := hhalf ▸ rung_strictMono.monotone (by omega)
  have hle' : rung (j + 1) ≤ 1 := hzero ▸ rung_strictMono.monotone (by omega)
  have hprod := mul_le_mul hle hle' (rung_pos _).le (by norm_num)
  have hlt := h.lt
  linarith

/-- In an interval with parts of at least one the step is whole. Where two parts are tried for one, no multiple of the
step for the one lies inside: it is two at least, and longer than the interval. -/
theorem grid_eq_of_wide (h : x < y) (hcount : 1 ≤ count) (hwide : count ≤ y - x) :
    ∃ j, 0 ≤ j ∧ (grid (finite x) (finite y) count).Covers x y (rung j) ∧ ⌈x / rung j⌉ ≤ ⌊y / rung j⌋ := by
  have hcount' : (1 : ℝ) ≤ count := by exact_mod_cast hcount
  have hpart : 1 ≤ (y - x) / count := by
    rw [le_div_iff₀ (by linarith)]
    linarith
  obtain ⟨j, hnearest, hcovers⟩ := gridFor_eq h hcount
  have hj : 0 ≤ j := hnearest.nonneg (by nlinarith)
  have hempty : (gridFor (finite x) (finite y) count).last < (gridFor (finite x) (finite y) count).first ↔
      ⌊y / rung j⌋ < ⌈x / rung j⌉ := by
    rw [hcovers.first, hcovers.last, Extended.finite_lt, Int.cast_lt]
  unfold grid
  dsimp only
  split
  next hretry =>
    obtain ⟨rfl, hnone⟩ := hretry
    obtain ⟨j', hnearest', hcovers'⟩ := gridFor_eq h (show 1 ≤ 2 by decide)
    refine ⟨j', hnearest'.nonneg ?_, hcovers',
      ceil_le_floor (rung_pos j') (rung_le_of_isNearest h le_rfl hnearest')⟩
    have hshort : y - x < rung j := by
      by_contra hnot
      exact absurd (ceil_le_floor (rung_pos j) (not_lt.mp hnot)) (not_le.mpr (hempty.mp hnone))
    have hone : 1 ≤ j := by
      by_contra hnot
      obtain rfl : j = 0 := by omega
      have hzero : rung 0 = 1 := by simpa using rung_one 0
      rw [Nat.cast_one] at hwide
      linarith
    have htwo : 2 ≤ rung (j - 1) * rung j := by
      have hzero : rung 0 ≤ rung (j - 1) := rung_strictMono.monotone (by omega)
      have hnext : rung 1 ≤ rung j := rung_strictMono.monotone hone
      rw [show rung 0 = 1 by simpa using rung_one 0] at hzero
      rw [show rung 1 = 2 by simpa using rung_two 0] at hnext
      nlinarith
    have hle := hnearest.le
    rw [Nat.cast_one, div_one] at hle
    push_cast
    nlinarith
  next hkept =>
    refine ⟨j, hj, hcovers, ?_⟩
    rcases Nat.eq_or_lt_of_le hcount with rfl | htwo
    · exact Int.not_lt.mp fun hlt => hkept ⟨rfl, hempty.mpr hlt⟩
    · exact ceil_le_floor (rung_pos j) (rung_le_of_isNearest h htwo hnearest)

/-- The ticks of an interval are the multiples of a rung, of a whole one if the parts are at least one long. -/
theorem linear_eq_multiples (h : x < y) (hcount : 1 ≤ count) :
    ∃ j, linear (finite x) (finite y) count = (multiples x y (rung j)).map finite ∧
      ((count : ℝ) ≤ y - x → 0 ≤ j) := by
  rw [(linear_of_lt h hcount).1]
  by_cases hwide : (count : ℝ) ≤ y - x
  · obtain ⟨j, hj, hcovers, hle⟩ := grid_eq_of_wide h hcount hwide
    exact ⟨j, Grid.ascending_of_covers hcovers (rung_pos j) hle, fun _ => hj⟩
  · obtain ⟨j, hcovers, hle, -, -⟩ := grid_eq h hcount
    exact ⟨j, Grid.ascending_of_covers hcovers (rung_pos j) hle, fun hwide' => absurd hwide' hwide⟩

/-- Powers with evenly spaced logarithms ascend within the span; they are whole powers if the span is as many powers
long as are asked for. -/
theorem exists_spaced_powers (hbase : 1 < base) (hlt : lo < hi) (hx : OnSide reflected lo) (hy : OnSide reflected hi)
    (hcount : 1 ≤ count) :
    ∃ ts : List ℝ, (linear (finite (sideLog base reflected lo)) (finite (sideLog base reflected hi)) count).map
        (Scalar.reflectedExp (finite base) reflected) = ts.map finite ∧
      ts.Pairwise (· < ·) ∧ (∀ t ∈ ts, lo ≤ t ∧ t ≤ hi) ∧
      ((count : ℝ) ≤ sideLog base reflected hi - sideLog base reflected lo → ∀ t ∈ ts, IsPowerOf base reflected t) := by
  have hmono := sidePow_strictMono hbase reflected
  obtain ⟨j, hlinear, hwhole⟩ := linear_eq_multiples (sideLog_strictMonoOn hbase reflected hx hy hlt) hcount
  have hmem := mem_multiples (x := sideLog base reflected lo) (y := sideLog base reflected hi) (rung_pos j)
  refine ⟨(multiples (sideLog base reflected lo) (sideLog base reflected hi) (rung j)).map (sidePow base reflected),
    ?_, ?_, ?_, ?_⟩
  · rw [hlinear, List.map_map, List.map_map]
    exact List.map_congr_left fun u _ => Extended.reflectedExp_finite (by linarith) reflected u
  · exact List.pairwise_map.mpr ((pairwise_multiples (rung_pos j)).imp fun hlt => hmono hlt)
  · intro t ht
    obtain ⟨u, hu, rfl⟩ := List.mem_map.mp ht
    obtain ⟨-, hlow, hhigh⟩ := (hmem u).mp hu
    rw [← sidePow_sideLog (by linarith) hbase.ne' hx, ← sidePow_sideLog (by linarith) hbase.ne' hy]
    exact ⟨hmono.monotone hlow, hmono.monotone hhigh⟩
  · intro hwide t ht
    obtain ⟨u, hu, rfl⟩ := List.mem_map.mp ht
    obtain ⟨⟨k, rfl⟩, -, -⟩ := (hmem u).mp hu
    obtain ⟨n, hn⟩ := exists_intCast_rung (hwhole hwide)
    rw [hn, ← Int.cast_mul]
    exact isPowerOf_sidePow base reflected (k * n)

/-- The number of powers asked for in a long span: at least one, and not more than it spans. -/
theorem powers_bounds (count : ℕ) (d : ℝ) :
    1 ≤ max 1 (min count (Scalar.toCount (Scalar.floor (finite d)))) ∧
      (1 ≤ d → (max 1 (min count (Scalar.toCount (Scalar.floor (finite d)))) : ℕ) ≤ d) := by
  refine ⟨le_max_left _ _, fun hd => ?_⟩
  have hfloor : 1 ≤ ⌊d⌋ := Int.le_floor.mpr (by exact_mod_cast hd)
  have hcount : Scalar.toCount (Scalar.floor (finite d)) ≤ ⌊d⌋.toNat := by
    unfold Scalar.toCount Scalar.truncateWithin
    show (max 0 (min _ (Extended.truncate (finite ⌊d⌋)))).toNat ≤ _
    rw [Extended.truncate_intCast]
    omega
  have hle : ((max 1 (min count (Scalar.toCount (Scalar.floor (finite d)))) : ℕ) : ℤ) ≤ ⌊d⌋ := by omega
  exact Int.le_floor.mp hle

/-! ## Ticks -/

/-- The multiples of powers of a base between two numbers. -/
def multiplesBetween (base : ℕ) (reflected : Bool) (lo hi : ℝ) : Set ℝ :=
  {t | IsMultipleOf base reflected t ∧ lo ≤ t ∧ t ≤ hi}

/-- How many powers of a base a span reaches over. -/
noncomputable def powersSpanned (base x y : ℝ) : ℝ := |Real.logb base (|y|) - Real.logb base (|x|)|

theorem powersSpanned_comm (base x y : ℝ) : powersSpanned base x y = powersSpanned base y x := abs_sub_comm _ _

theorem powersSpanned_of_lt (hbase : 1 < base) (hlt : lo < hi) (hx : OnSide reflected lo) (hy : OnSide reflected hi) :
    powersSpanned base lo hi = sideLog base reflected hi - sideLog base reflected lo := by
  have hpos := sub_pos.mpr (sideLog_strictMonoOn hbase reflected hx hy hlt)
  rw [← abs_of_pos hpos]
  unfold powersSpanned
  cases reflected with
  | false => rw [abs_of_pos (show 0 < lo from hx), abs_of_pos (show 0 < hi from hy)]; rfl
  | true =>
    rw [abs_of_neg (neg_pos.mp hx), abs_of_neg (neg_pos.mp hy), abs_sub_comm]
    exact congrArg abs (by simp only [sideLog, if_true]; ring)

/-- A list without repeats is as long as the set that it lists. -/
theorem encard_eq_length {ts : List ℝ} {s : Set ℝ} (hts : ts.Pairwise (· < ·)) (hmem : ∀ t, t ∈ ts ↔ t ∈ s) :
    s.encard = ts.length := by
  classical
  have hs : s = (ts.toFinset : Set ℝ) := by
    ext t
    rw [Finset.mem_coe, List.mem_toFinset, hmem]
  rw [hs, Set.encard_coe_eq_coe_finsetCard, List.toFinset_card_of_nodup (hts.imp ne_of_lt)]

/-- What the ticks of an ascending span are. -/
structure AreLogTicks (base : ℝ) (reflected : Bool) (count : ℕ) (lo hi : ℝ) (ticks : List ℝ) : Prop where
  ascending : ticks.Pairwise (· < ·)
  inside : ∀ t ∈ ticks, lo ≤ t ∧ t ≤ hi
  multiples : ∀ b : ℕ, base = b → powersSpanned base lo hi < count →
    (count : ℕ∞) ≤ 2 * (multiplesBetween b reflected lo hi).encard →
    ∀ t, t ∈ ticks ↔ t ∈ multiplesBetween b reflected lo hi
  powers : ∀ b : ℕ, base = b → count ≤ powersSpanned base lo hi → ∀ t ∈ ticks, IsPowerOf base reflected t

/-- The ticks of a span that is short for a whole base. -/
theorem areLogTicks_of_short {b : ℕ} (hb : 1 < b) (hfits : b < 2 ^ 31) (hlt : lo < hi) (hx : OnSide reflected lo)
    (hy : OnSide reflected hi) (hxsize : IsDoubleSized lo) (hysize : IsDoubleSized hi) (hcount : 1 ≤ count)
    (hshort : powersSpanned b lo hi < count) {found : List Extended}
    (hfound : multiplesWithin (finite lo) (finite hi) (finite b) (finite (sideLog b reflected lo))
      (finite (sideLog b reflected hi)) = found) :
    ∃ ticks : List ℝ, (if found.length * 2 < count then linear (finite lo) (finite hi) count else found)
        = ticks.map finite ∧ AreLogTicks b reflected count lo hi ticks := by
  obtain ⟨ts, hts, hascending, hmem⟩ := multiplesWithin_eq hb hfits hlt.le hx hy hxsize hysize
  rw [← hfound, hts, List.length_map]
  have hcard := encard_eq_length (s := multiplesBetween b reflected lo hi) hascending hmem
  split
  next hfew =>
    -- too few multiples: evenly spaced numbers take their place
    obtain ⟨j, hlinear, -⟩ := linear_eq_multiples hlt hcount
    refine ⟨_, hlinear, pairwise_multiples (rung_pos j), fun t ht => ((mem_multiples (rung_pos j) t).mp ht).2, ?_, ?_⟩
    · intro b' hb' _ henough
      obtain rfl : b = b' := by exact_mod_cast hb'
      rw [hcard] at henough
      have henough : count ≤ 2 * ts.length := by exact_mod_cast henough
      omega
    · exact fun _ _ hlong => absurd hshort hlong.not_gt
  next henough =>
    refine ⟨ts, rfl, hascending, fun t ht => ((hmem t).mp ht).2, ?_, ?_⟩
    · intro b' hb' _ _
      obtain rfl : b = b' := by exact_mod_cast hb'
      exact hmem
    · exact fun _ _ hlong => absurd hshort hlong.not_gt

/-- The ticks of any other span. -/
theorem areLogTicks_of_long (hbase : 1 < base) (hlt : lo < hi) (hx : OnSide reflected lo) (hy : OnSide reflected hi)
    (hcount : 1 ≤ count) (hlong : ∀ b : ℕ, base = b → count ≤ powersSpanned base lo hi) :
    ∃ ticks : List ℝ,
      (linear (finite (sideLog base reflected lo)) (finite (sideLog base reflected hi))
        (max 1 (min count (Scalar.toCount (Scalar.floor (finite (powersSpanned base lo hi))))))).map
          (Scalar.reflectedExp (finite base) reflected) = ticks.map finite ∧
        AreLogTicks base reflected count lo hi ticks := by
  obtain ⟨hone, hle⟩ := powers_bounds count (powersSpanned base lo hi)
  obtain ⟨ts, hts, hascending, hinside, hpowers⟩ := exists_spaced_powers hbase hlt hx hy hone
  refine ⟨ts, hts, hascending, hinside, ?_, ?_⟩
  · exact fun b hb hshort => absurd hshort (hlong b hb).not_gt
  · intro b hb hlong'
    have hcount' : (1 : ℝ) ≤ count := by exact_mod_cast hcount
    rw [powersSpanned_of_lt hbase hlt hx hy] at hle hlong' hpowers
    exact hpowers (hle (hcount'.trans hlong'))

theorem logAscending_eq (hbase : 1 < base) (hfits : ∀ b : ℕ, base = b → b < 2 ^ 31) (hlt : lo < hi)
    (hx : OnSide reflected lo) (hy : OnSide reflected hi) (hxsize : IsDoubleSized lo) (hysize : IsDoubleSized hi)
    (hcount : 1 ≤ count) :
    ∃ ticks : List ℝ, logAscending (finite lo) (finite hi) (finite base) count = ticks.map finite ∧
      AreLogTicks base reflected count lo hi ticks := by
  have hside : decide (finite lo < 0) = reflected := by
    rw [← hx.decide_lt, Extended.zero_eq]
    exact decide_eq_decide.mpr Extended.finite_lt
  have hspan := powersSpanned_of_lt hbase hlt hx hy
  have hpos : 0 < base := by linarith
  have hwhole : (Scalar.isWhole (finite base) && decide (finite (powersSpanned base lo hi) < Scalar.ofInt count)) = true ↔
      (∃ b : ℕ, base = b) ∧ powersSpanned base lo hi < count := by
    rw [Bool.and_eq_true, Extended.isWhole_iff, decide_eq_true_eq, Extended.ofInt_eq, Extended.finite_lt,
      Int.cast_natCast]
    refine and_congr_left fun _ => ⟨?_, ?_⟩
    · rintro ⟨k, rfl⟩
      have hk : 0 < k := by exact_mod_cast hpos
      exact ⟨k.toNat, by rw [← Int.cast_natCast, Int.toNat_of_nonneg hk.le]⟩
    · rintro ⟨b, rfl⟩
      exact ⟨b, (Int.cast_natCast b).symm⟩
  unfold logAscending
  simp only [hside, Extended.reflectedLog_finite hpos hbase.ne' hx, Extended.reflectedLog_finite hpos hbase.ne' hy,
    Extended.isFinite_finite, Bool.not_true, Bool.or_self, Bool.false_eq_true, if_false, Extended.finite_sub, ← hspan]
  split
  next h =>
    obtain ⟨⟨b, rfl⟩, hshort⟩ := hwhole.mp h
    exact areLogTicks_of_short (by exact_mod_cast hbase) (hfits b rfl) hlt hx hy hxsize hysize hcount hshort rfl
  next h =>
    refine areLogTicks_of_long hbase hlt hx hy hcount fun b hb => ?_
    exact not_lt.mp fun hshort => h (hwhole.mpr ⟨⟨b, hb⟩, hshort⟩)

/-- **Ticks of a log span lie in it and are the right multiples.** Let the base be above one, and below `2 ^ 31` if it
is whole; let the ends of the span differ, have one sign and lie within the range of doubles, in exact arithmetic. All
ticks lie between the ends and come in the direction of the span. Let the base be whole. If the span reaches over fewer
powers than ticks are asked for, and at least half as many multiples `k * base ^ e` with `1 ≤ k < base` lie in it, the
ticks are these multiples, negated if the span is negative. If it reaches over at least as many powers, each tick is a
whole power. -/
theorem log_lists_powers (hbase : 1 < base) (hfits : ∀ b : ℕ, base = b → b < 2 ^ 31)
    (hside : 0 < x ∧ 0 < y ∨ x < 0 ∧ y < 0) (hxsize : IsDoubleSized x) (hysize : IsDoubleSized y) (hne : x ≠ y)
    (hcount : 1 ≤ count) :
    ∃ ticks : List ℝ, log (finite x) (finite y) (finite base) count = ticks.map finite ∧
      (∀ t ∈ ticks, min x y ≤ t ∧ t ≤ max x y) ∧ (x < y → ticks.Pairwise (· < ·)) ∧ (y < x → ticks.Pairwise (· > ·)) ∧
      ∀ b : ℕ, base = b →
        (powersSpanned base x y < count →
          (count : ℕ∞) ≤ 2 * (multiplesBetween b (decide (x < 0)) (min x y) (max x y)).encard →
          ∀ t, t ∈ ticks ↔ t ∈ multiplesBetween b (decide (x < 0)) (min x y) (max x y)) ∧
        (count ≤ powersSpanned base x y → ∀ t ∈ ticks, IsPowerOf base (decide (x < 0)) t) := by
  obtain ⟨hx, hy⟩ := onSide_of_sign hside
  generalize decide (x < 0) = reflected at hx hy ⊢
  have hsome : (decide (count = 0) || !Scalar.isFinite (finite x) || !Scalar.isFinite (finite y)) = false := by
    rw [decide_eq_false (by omega)]
    rfl
  unfold log
  rw [if_neg (by rw [hsome]; exact Bool.false_ne_true)]
  rcases hne.lt_or_gt with hlt | hgt
  · obtain ⟨ticks, hticks, hare⟩ := logAscending_eq hbase hfits hlt hx hy hxsize hysize hcount
    rw [if_neg (by rw [Extended.finite_lt]; exact hlt.not_gt), hticks, min_eq_left hlt.le, max_eq_right hlt.le]
    exact ⟨ticks, rfl, hare.inside, fun _ => hare.ascending, fun hgt => absurd hgt hlt.not_gt,
      fun b hb => ⟨hare.multiples b hb, hare.powers b hb⟩⟩
  · obtain ⟨ticks, hticks, hare⟩ := logAscending_eq hbase hfits hgt hy hx hysize hxsize hcount
    rw [if_pos (Extended.finite_lt.mpr hgt), hticks, min_eq_right hgt.le, max_eq_left hgt.le, powersSpanned_comm]
    refine ⟨ticks.reverse, List.map_reverse.symm, ?_, fun hlt => absurd hlt hgt.not_gt, fun _ => ?_, fun b hb => ⟨?_, ?_⟩⟩
    · exact fun t ht => hare.inside t (List.mem_reverse.mp ht)
    · exact List.pairwise_reverse.mpr hare.ascending
    · intro hshort henough t
      rw [List.mem_reverse]
      exact hare.multiples b hb hshort henough t
    · exact fun hlong t ht => hare.powers b hb hlong t (List.mem_reverse.mp ht)

/-- From 30 down to 2 the ticks are all multiples of one and of ten, if three are asked for. -/
theorem log_lists_powers_backwards :
    (1 : ℝ) < 10 ∧ IsDoubleSized 30 ∧ IsDoubleSized 2 ∧ ∃ ticks : List ℝ,
      log (finite 30) (finite 2) (finite 10) 3 = ticks.map finite ∧ ticks.Pairwise (· > ·) ∧
        ∀ t, t ∈ ticks ↔ t ∈ multiplesBetween 10 false 2 30 := by
  have hbase : (1 : ℝ) < 10 := by norm_num
  have hcount : 1 ≤ 3 := by norm_num
  have hfits : ∀ b : ℕ, (10 : ℝ) = b → b < 2 ^ 31 := by
    intro b hb
    obtain rfl : 10 = b := by exact_mod_cast hb
    norm_num
  have hsize : ∀ n : ℝ, 1 ≤ n → n ≤ 32 → IsDoubleSized n := by
    intro n hlo hhi
    rw [isDoubleSized_iff, abs_of_pos (by linarith)]
    constructor
    · exact (zpow_le_one_of_nonpos₀ (by norm_num) (by norm_num)).trans hlo
    · refine lt_of_le_of_lt (b := (2 : ℝ) ^ (5 : ℤ)) (by norm_num; exact hhi) ?_
      exact zpow_lt_zpow_right₀ (by norm_num) (by norm_num)
  obtain ⟨ticks, hticks, -, -, hdescending, hare⟩ := log_lists_powers (x := 30) (y := 2) hbase hfits
    (.inl ⟨by norm_num, by norm_num⟩) (hsize 30 (by norm_num) (by norm_num)) (hsize 2 (by norm_num) (by norm_num))
    (by norm_num) hcount
  obtain ⟨hmultiples, -⟩ := hare 10 (by norm_num)
  rw [decide_eq_false (by norm_num), min_eq_right (by norm_num), max_eq_left (by norm_num)] at hmultiples
  refine ⟨hbase, hsize 30 (by norm_num) (by norm_num), hsize 2 (by norm_num) (by norm_num), ticks, hticks,
    hdescending (by norm_num), hmultiples ?_ ?_⟩
  · -- the span is shorter than two powers
    have hlow : 0 < Real.logb 10 2 := Real.logb_pos hbase (by norm_num)
    have hlow' : Real.logb 10 2 < 2 := (Real.logb_lt_iff_lt_rpow hbase (by norm_num)).mpr (by norm_num)
    have hhigh : 0 < Real.logb 10 30 := Real.logb_pos hbase (by norm_num)
    have hhigh' : Real.logb 10 30 < 2 := (Real.logb_lt_iff_lt_rpow hbase (by norm_num)).mpr (by norm_num)
    rw [powersSpanned, Nat.abs_ofNat, Nat.abs_ofNat, abs_lt]
    push_cast
    exact ⟨by linarith, by linarith⟩
  · -- ten and twenty are two of the multiples
    have hpair : ({10, 20} : Set ℝ) ⊆ multiplesBetween 10 false 2 30 := by
      rintro t (rfl | rfl)
      · exact ⟨⟨1, 1, by norm_num, by norm_num, by norm_num⟩, by norm_num, by norm_num⟩
      · exact ⟨⟨2, 1, by norm_num, by norm_num, by norm_num⟩, by norm_num, by norm_num⟩
    calc ((3 : ℕ) : ℕ∞) ≤ 2 * 2 := by norm_num
      _ = 2 * ({10, 20} : Set ℝ).encard := by rw [Set.encard_pair (by norm_num)]
      _ ≤ 2 * (multiplesBetween 10 false 2 30).encard := by gcongr

end VisualEncoding.Ticks
