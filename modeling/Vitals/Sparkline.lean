import Vitals.Kernel.Screen
import Vitals.Library.Fallible

/-! The sparkline: every value gets a block, whatever the value and the scale are, and the
blocks are as high as the values. -/
namespace Vitals.Sparkline
open Kernel Text F64 Nearest

def height (R : Rounding) (f : F64) : Nat := (roundAway (R.mul f (R.ofNat (blocks.length-1)))).toU64.toNat

private theorem blockIndex_eq (R : Rounding) (max v : F64) :
    blockIndex R max v = height R ((R.div v max).clamp (.fin 0) (.fin 1)) := rfl

private theorem finite_between {x : F64} {a b : ℚ} (low : .fin a ≤ x) (high : x ≤ .fin b) :
    ∃ t, x = .fin t ∧ a ≤ t ∧ t ≤ b := by
  cases x with
  | nan => cases low
  | negInf => cases low
  | posInf => cases high
  | fin t => exact ⟨t,rfl,(fin_le_fin _ _).mp low,(fin_le_fin _ _).mp high⟩

private theorem clamp_mono {x y : F64} (ordered : x ≤ y) : ∃ p q, x.clamp (.fin 0) (.fin 1) = .fin p ∧
    y.clamp (.fin 0) (.fin 1) = .fin q ∧ 0 ≤ p ∧ p ≤ q ∧ q ≤ 1 := by
  have low : F64.negInf.clamp (.fin 0) (.fin 1) = .fin 0 := rfl
  have high : F64.posInf.clamp (.fin 0) (.fin 1) = .fin 1 := rfl
  have finite (q : ℚ) : (F64.fin q).clamp (.fin 0) (.fin 1) = .fin (max 0 (min q 1)) := clamp_fin q zero_le_one
  cases x with
  | nan => cases ordered
  | negInf =>
    cases y with
    | nan => cases ordered
    | negInf => exact ⟨0,0,low,low,le_rfl,le_rfl,zero_le_one⟩
    | fin q => exact ⟨0,_,low,finite q,le_rfl,le_max_left _ _,max_le zero_le_one (min_le_right _ _)⟩
    | posInf => exact ⟨0,1,low,high,le_rfl,zero_le_one,le_rfl⟩
  | fin p =>
    cases y with
    | nan => cases ordered
    | negInf => cases ordered
    | fin q =>
      refine ⟨_,_,finite p,finite q,le_max_left _ _,?_,max_le zero_le_one (min_le_right _ _)⟩
      exact max_le_max le_rfl (min_le_min ((fin_le_fin p q).mp ordered) le_rfl)
    | posInf => exact ⟨_,1,finite p,high,le_max_left _ _,max_le zero_le_one (min_le_right _ _),le_rfl⟩
  | posInf =>
    cases y with
    | nan => cases ordered
    | negInf => cases ordered
    | fin q => cases ordered
    | posInf => exact ⟨1,1,high,high,zero_le_one,le_rfl,le_rfl⟩

section
variable (R : Rounding)

private theorem ofNat_blocks : R.ofNat (blocks.length-1) = .fin 7 := R.integers 7 (by norm_num)

private theorem height_nan : height R .nan = 0 := rfl

private theorem height_fin {q : ℚ} (low : 0 ≤ q) (high : q ≤ 1) :
    ∃ t, R.round (q*7) = .fin t ∧ 0 ≤ t ∧ t ≤ 7 ∧ height R (.fin q) = (t+1/2).floor.toNat := by
  have least := R.round_nonneg (show 0 ≤ q*7 by positivity)
  have most := R.monotone (q*7) (7 : Nat) (by push_cast; linarith)
  rw [R.integers 7 (by norm_num)] at most
  obtain ⟨t,value,above,below⟩ := finite_between least most
  push_cast at below
  refine ⟨t,value,above,below,?_⟩
  have whole : (((t+1/2).floor.toNat : Nat) : ℚ) = ((t+1/2).floor : ℚ) := by
    have nonneg : 0 ≤ (t+1/2).floor := Rat.le_floor_iff.mpr (by push_cast; linarith)
    exact_mod_cast Int.toNat_of_nonneg nonneg
  have small : (t+1/2).floor.toNat < 2^64 := by
    obtain ⟨under,_⟩ := floor_bounds (show 0 ≤ t+1/2 by linarith)
    have cast : ((t+1/2).floor.toNat : ℚ) < (2^64 : Nat) := by
      push_cast
      linarith
    exact Nat.cast_lt.mp cast
  rw [height,ofNat_blocks,Rounding.mul,value,roundAway,if_neg (not_lt.mpr above),← whole,toU64_natCast small]

private theorem steps_mono {s t : ℚ} (nonneg : 0 ≤ s) (ordered : s ≤ t) :
    (s+1/2).floor.toNat ≤ (t+1/2).floor.toNat := by
  obtain ⟨under,_⟩ := floor_bounds (show 0 ≤ s+1/2 by linarith)
  obtain ⟨_,beyond⟩ := floor_bounds (show 0 ≤ t+1/2 by linarith)
  have cast : ((s+1/2).floor.toNat : ℚ) < ((t+1/2).floor.toNat+1 : Nat) := by
    push_cast
    linarith
  exact Nat.lt_succ_iff.mp (Nat.cast_lt.mp cast)

private theorem height_mono {p q : ℚ} (nonneg : 0 ≤ p) (ordered : p ≤ q) (high : q ≤ 1) :
    height R (.fin p) ≤ height R (.fin q) := by
  obtain ⟨s,first,least,_,index⟩ := height_fin R nonneg (ordered.trans high)
  obtain ⟨t,second,_,_,index'⟩ := height_fin R (nonneg.trans ordered) high
  have between := R.monotone (p*7) (q*7) (by linarith)
  rw [first,second,fin_le_fin] at between
  rw [index,index']
  exact steps_mono least between

private theorem height_zero : height R (.fin 0) = 0 := by
  obtain ⟨t,value,_,_,index⟩ := height_fin R le_rfl zero_le_one
  rw [zero_mul,R.round_zero] at value
  obtain rfl := F64.fin.inj value
  rw [index]
  decide +kernel

private theorem height_one : height R (.fin 1) = 7 := by
  obtain ⟨t,value,_,_,index⟩ := height_fin R zero_le_one le_rfl
  have seven := R.integers 7 (by norm_num)
  rw [Nat.cast_ofNat] at seven
  rw [one_mul,seven] at value
  obtain rfl := F64.fin.inj value
  rw [index]
  decide +kernel

private theorem height_lt {x : F64} (unit : x = .nan ∨ ∃ q, x = .fin q ∧ 0 ≤ q ∧ q ≤ 1) :
    height R x < blocks.length := by
  rcases unit with rfl | ⟨q,rfl,low,high⟩
  · rw [height_nan]
    decide
  · have below := height_mono R low high le_rfl
    rw [height_one] at below
    exact Nat.lt_succ_of_le below

private theorem round_between (q : ℚ) : .negInf ≤ R.round q ∧ R.round q ≤ .posInf := by
  have self := R.monotone q q le_rfl
  cases value : R.round q with
  | nan => rw [value] at self; cases self
  | negInf => exact ⟨rfl,rfl⟩
  | fin t => exact ⟨rfl,rfl⟩
  | posInf => exact ⟨rfl,rfl⟩

private theorem div_mono {x y : F64} {m : ℚ} (positive : 0 < m) (ordered : x ≤ y) :
    R.div x (.fin m) ≤ R.div y (.fin m) := by
  have above : ¬ m < 0 := not_lt.mpr positive.le
  have low : R.div .negInf (.fin m) = .negInf := by simp [Rounding.div,above,F64.sign,infinite]
  have high : R.div .posInf (.fin m) = .posInf := by simp [Rounding.div,above,F64.sign,infinite]
  have finite (q : ℚ) : R.div (.fin q) (.fin m) = R.round (q/m) := if_neg positive.ne'
  cases x with
  | nan => cases ordered
  | negInf =>
    rw [low]
    cases y with
    | nan => cases ordered
    | negInf => rw [low]; rfl
    | fin q =>
      rw [finite]
      exact (round_between R _).1
    | posInf => rw [high]; rfl
  | fin p =>
    cases y with
    | nan => cases ordered
    | negInf => cases ordered
    | fin q =>
      rw [finite,finite]
      exact R.monotone _ _ (div_le_div_of_nonneg_right ((fin_le_fin p q).mp ordered) positive.le)
    | posInf =>
      rw [finite,high]
      exact (round_between R _).2
  | posInf =>
    cases y with
    | nan => cases ordered
    | negInf => cases ordered
    | fin q => cases ordered
    | posInf => rw [high]; rfl

/-- The scale in use: one that is not positive is replaced. -/
def fullScale (max : F64) : F64 := if max ≤ .fin 0 then R.ofNat 1 else max

private theorem fullScale_pos {max : F64} {m : ℚ} (scale : fullScale R max = .fin m) : 0 < m := by
  unfold fullScale at scale
  split_ifs at scale with below
  · rw [R.ofNat_one] at scale
    rw [← F64.fin.inj scale]
    exact zero_lt_one
  · subst scale
    rw [fin_le_fin] at below
    exact not_le.mp below

private theorem clamped (x : F64) :
    x.clamp (.fin 0) (.fin 1) = .nan ∨ ∃ q, x.clamp (.fin 0) (.fin 1) = .fin q ∧ 0 ≤ q ∧ q ≤ 1 := by
  by_cases self : x ≤ x
  · obtain ⟨p,q,value,_,low,between,high⟩ := clamp_mono self
    exact .inr ⟨p,value,low,between.trans high⟩
  · cases x with
    | nan => exact .inl rfl
    | negInf => exact absurd rfl self
    | fin q => exact absurd ((fin_le_fin q q).mpr le_rfl) self
    | posInf => exact absurd rfl self

theorem blockIndex_lt (max v : F64) : blockIndex R max v < blocks.length := height_lt R (clamped _)

private theorem blockIndex_mono {m : ℚ} (positive : 0 < m) {x y : F64} (ordered : x ≤ y) :
    blockIndex R (.fin m) x ≤ blockIndex R (.fin m) y := by
  obtain ⟨p,q,first,second,low,between,high⟩ := clamp_mono (div_mono R positive ordered)
  rw [blockIndex_eq,blockIndex_eq,first,second]
  exact height_mono R low between high

private theorem blockIndex_zero (m : ℚ) (positive : 0 < m) : blockIndex R (.fin m) (.fin 0) = 0 := by
  have part : R.div (.fin 0) (.fin m) = .fin 0 := by rw [Rounding.div,if_neg positive.ne',zero_div,R.round_zero]
  rw [blockIndex_eq,part,clamp_fin 0 zero_le_one]
  exact height_zero R

private theorem blockIndex_full (m : ℚ) (positive : 0 < m) : blockIndex R (.fin m) (.fin m) = 7 := by
  have part : R.div (.fin m) (.fin m) = .fin 1 := by
    rw [Rounding.div,if_neg positive.ne',div_self positive.ne',R.round_one]
  rw [blockIndex_eq,part,clamp_fin 1 zero_le_one]
  exact height_one R

theorem sparkline_eq (vals : List F64) (max : F64) : sparkline R vals max =
    some (vals.map (fun v => blocks.get ⟨blockIndex R (fullScale R max) v,blockIndex_lt R _ v⟩)) := by
  cases vals with
  | nil => rfl
  | cons v vals =>
    exact Fallible.mapM_some (v :: vals) (fun v _ => List.getElem?_eq_getElem (blockIndex_lt R _ v))

/-- No value takes the index out of the table, a NaN included; on a finite scale a larger value
never gets a lower block, nothing gets the lowest one and what reaches the scale the highest. -/
theorem sparkline_faithful (vals : List F64) (max : F64) :
    ∃ level : F64 → Fin 8, sparkline R vals max = some (vals.map (fun v => blocks.get (level v))) ∧
      ∀ m, fullScale R max = .fin m → (∀ x y, x ≤ y → level x ≤ level y) ∧
        (∀ x, x ≤ .fin 0 → level x = 0) ∧ (∀ x, .fin m ≤ x → level x = 7) := by
  refine ⟨fun v => ⟨blockIndex R (fullScale R max) v,blockIndex_lt R _ v⟩,sparkline_eq R vals max,?_⟩
  intro m scale
  have positive := fullScale_pos R scale
  have ordered {x y : F64} (less : x ≤ y) := blockIndex_mono R positive less
  rw [scale]
  refine ⟨fun x y less => ordered less,?_,?_⟩
  · intro x low
    have below := ordered low
    rw [blockIndex_zero R m positive] at below
    exact Fin.ext (Nat.le_zero.mp below)
  · intro x high
    have above := ordered high
    rw [blockIndex_full R m positive] at above
    exact Fin.ext (Nat.le_antisymm (Nat.le_of_lt_succ (blockIndex_lt R _ x)) above)

end
end Vitals.Sparkline
