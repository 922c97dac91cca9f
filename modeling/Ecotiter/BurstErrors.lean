import Mathlib.Algebra.Polynomial.Div
import Mathlib.Algebra.Polynomial.Degree.Lemmas
import Mathlib.Algebra.Polynomial.FieldDivision
import Mathlib.RingTheory.PrincipalIdealDomain

/-!
# Bursts and the division by a polynomial

A word over a field is the polynomial with its symbols as coefficients, the first symbol in front of
the highest power. A divisor that has a constant term divides no difference of two words that
differ in fewer symbols next to each other than its degree counts.
-/

namespace BurstErrors
open Polynomial

variable {F : Type} [Field F]

/-- The polynomial of a word. -/
noncomputable def poly (w : List F) : F[X] := w.foldl (fun p a => p * X + C a) 0

/-- Two words that differ in at most `k` symbols next to each other, and nowhere else. -/
def Burst (k : ℕ) (v w : List F) : Prop :=
  ∃ pre mid mid' post, v = pre ++ mid ++ post ∧ w = pre ++ mid' ++ post ∧
    mid.length = mid'.length ∧ mid.length ≤ k ∧ mid ≠ mid'

theorem foldl_poly (w : List F) (p : F[X]) :
    w.foldl (fun p a => p * X + C a) p = p * X ^ w.length + poly w := by
  induction w using List.reverseRecOn with
  | nil => simp [poly]
  | append_singleton w a ih =>
    have hpoly : poly (w ++ [a]) = poly w * X + C a := by
      rw [poly, List.foldl_append]
      rfl
    rw [List.foldl_append, ih, hpoly, List.length_append, List.length_singleton, pow_succ]
    change (p * X ^ w.length + poly w) * X + C a = _
    ring

theorem poly_append (v w : List F) : poly (v ++ w) = poly v * X ^ w.length + poly w := by
  rw [poly, List.foldl_append, foldl_poly]
  rfl

@[simp] theorem poly_nil : poly ([] : List F) = 0 := rfl

theorem poly_cons (a : F) (w : List F) : poly (a :: w) = C a * X ^ w.length + poly w := by
  have hone : poly [a] = C a := by simp [poly]
  rw [← List.singleton_append, poly_append, hone]

theorem degree_poly_lt (w : List F) : (poly w).degree < w.length := by
  induction w with
  | nil =>
    rw [poly_nil, degree_zero]
    exact WithBot.bot_lt_coe 0
  | cons a w ih =>
    rw [poly_cons]
    have hfirst : (C a * X ^ w.length).degree ≤ (w.length : WithBot ℕ) :=
      degree_C_mul_X_pow_le _ _
    have hsum : (C a * X ^ w.length + poly w).degree ≤ (w.length : WithBot ℕ) :=
      (degree_add_le _ _).trans (max_le hfirst ih.le)
    exact hsum.trans_lt (by exact_mod_cast Nat.lt_succ_self _)

/-- Words of one length have different polynomials. -/
theorem poly_injective {v w : List F} (hlength : v.length = w.length) (h : poly v = poly w) :
    v = w := by
  induction v generalizing w with
  | nil => exact (List.eq_nil_of_length_eq_zero hlength.symm).symm
  | cons a v ih =>
    cases w with
    | nil => cases hlength
    | cons b w =>
      have hrest : v.length = w.length := Nat.succ.inj hlength
      have hhigh : ∀ (c : F) (u : List F), (poly (c :: u)).coeff u.length = c := by
        intro c u
        rw [poly_cons, coeff_add, coeff_C_mul_X_pow, if_pos rfl,
          coeff_eq_zero_of_degree_lt (degree_poly_lt u), add_zero]
      have hfirst : a = b := by
        rw [← hhigh a v, h, hrest, hhigh]
      rw [poly_cons, poly_cons, hfirst, hrest] at h
      rw [hfirst, ih hrest (add_left_cancel h)]

/-- A divisor with a constant term sees a burst that is shorter than its degree, however far from
the end it stands. -/
theorem not_dvd_of_burst {g : F[X]} {k : ℕ} {v w : List F} (hg : g.coeff 0 ≠ 0)
    (hk : (k : WithBot ℕ) ≤ g.degree) (h : Burst k v w) (n : ℕ) :
    ¬ g ∣ (poly v - poly w) * X ^ n := by
  obtain ⟨pre, mid, mid', post, rfl, rfl, hlength, hmid, hne⟩ := h
  have hdiff : poly (pre ++ mid ++ post) - poly (pre ++ mid' ++ post) =
      (poly mid - poly mid') * X ^ post.length := by
    rw [poly_append, poly_append, poly_append, poly_append, hlength]
    ring
  have hcoprime : ∀ m, IsCoprime g (X ^ m) := by
    intro m
    apply IsCoprime.pow_right
    have hX : Irreducible (X : F[X]) := irreducible_X
    exact (hX.coprime_iff_not_dvd.mpr (mt X_dvd_iff.mp hg)).symm
  intro hdvd
  rw [hdiff, mul_assoc, ← pow_add] at hdvd
  have hsmall := (hcoprime _).dvd_of_dvd_mul_right hdvd
  have hlt : (poly mid - poly mid').degree < g.degree := by
    calc (poly mid - poly mid').degree ≤ max (poly mid).degree (poly mid').degree :=
          degree_sub_le _ _
      _ < mid.length := max_lt (degree_poly_lt mid) (hlength ▸ degree_poly_lt mid')
      _ ≤ k := by exact_mod_cast hmid
      _ ≤ g.degree := hk
  have hzero := eq_zero_of_dvd_of_degree_lt hsmall hlt
  exact hne (poly_injective hlength (sub_eq_zero.mp hzero))

end BurstErrors
