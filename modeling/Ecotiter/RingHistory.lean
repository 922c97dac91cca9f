import Mathlib.Data.List.Basic
import Mathlib.Data.List.GetD
import Mathlib.Data.List.Nodup
import Mathlib.Data.List.Perm.Subperm
import Mathlib.Data.Nat.ModEq

/-!
# A ring with a free-running counter

Values are written into a ring of slots, in turn, and the counter of the writes starts again after a
period. Where the period is no multiple of the capacity, the turn breaks there. The history of the
writes is kept with the newest value in front.
-/

namespace RingHistory
variable {α : Type}

/-- The slot of the write with a number. -/
def slotOf (period capacity k : ℕ) : ℕ := k % period % capacity

/-- The slot that is read some writes back from a head. -/
def indexOf (capacity head offset : ℕ) : ℕ :=
  if offset ≤ head then (head - offset) % capacity else (capacity + head - offset) % capacity

/-- What was last written into a slot. -/
def lastAt (period capacity : ℕ) (blank : α) (j : ℕ) : List α → α
  | [] => blank
  | x :: history =>
    if slotOf period capacity history.length = j then x else lastAt period capacity blank j history

theorem indexOf_lt {capacity head offset : ℕ} (h : 0 < capacity) :
    indexOf capacity head offset < capacity := by
  unfold indexOf
  split <;> exact Nat.mod_lt _ h

/-- The slots hold what was last written into them. -/
structure Holds (period capacity : ℕ) (blank : α) (slots history : List α) : Prop where
  length : slots.length = capacity
  get : ∀ j, j < capacity → slots[j]? = some (lastAt period capacity blank j history)

/-- The turn is not broken within the last round of writes. -/
def Aligned (period capacity n : ℕ) : Prop :=
  n < period ∨ capacity ∣ period ∨ capacity ≤ n % period

/-- A loop that collects results up to a limit. -/
theorem foldl_upTo {β : Type} {limit : ℕ} (f : β → Option α) {out : List α}
    (hout : out.length ≤ limit) {l : List β} :
    l.foldl (fun out x => if out.length < limit then out ++ (f x).toList else out) out =
      (out ++ l.filterMap f).take limit := by
  induction l generalizing out with
  | nil => simp [List.take_of_length_le hout]
  | cons x l ih =>
    rw [List.foldl_cons]
    by_cases hroom : out.length < limit
    · have hlength : (out ++ (f x).toList).length ≤ limit := by
        cases f x <;> simp <;> omega
      rw [if_pos hroom, ih hlength]
      cases hx : f x <;> simp [hx]
    · have hfull : out.length = limit := by omega
      rw [if_neg hroom, ih hout, ← hfull, List.take_left, List.take_left]

variable {period capacity n : ℕ} {blank : α} {slots history : List α}

theorem holds_blank (capacity : ℕ) :
    Holds period capacity blank (List.replicate capacity blank) [] where
  length := List.length_replicate
  get _ hj := by rw [List.getElem?_replicate, if_pos hj]; rfl

/-- A write keeps the other slots. -/
theorem Holds.write (h : Holds period capacity blank slots history) (x : α) :
    Holds period capacity blank (slots.set (slotOf period capacity history.length) x)
      (x :: history) where
  length := by rw [List.length_set, h.length]
  get j hj := by
    rw [List.getElem?_set, lastAt, h.length]
    by_cases hslot : slotOf period capacity history.length = j
    · rw [if_pos hslot, if_pos hslot, hslot, if_pos hj]
    · rw [if_neg hslot, if_neg hslot, h.get j hj]

/-- What a slot holds if later writes went elsewhere. -/
theorem lastAt_recent {i : ℕ} (hi : i < history.length)
    (hlater : ∀ k, history.length - 1 - i < k → k < history.length →
      slotOf period capacity k ≠ slotOf period capacity (history.length - 1 - i)) :
    lastAt period capacity blank (slotOf period capacity (history.length - 1 - i)) history =
      history[i] := by
  induction history generalizing i with
  | nil => exact absurd hi (Nat.not_lt_zero i)
  | cons x history ih =>
    have hlength : (x :: history).length = history.length + 1 := List.length_cons
    cases i with
    | zero =>
      rw [lastAt, if_pos (by simp)]
      rfl
    | succ i =>
      have hback : (x :: history).length - 1 - (i + 1) = history.length - 1 - i := by omega
      have hi' : i < history.length := by omega
      rw [hback] at hlater ⊢
      rw [lastAt, if_neg (hlater history.length (by omega) (by omega))]
      exact ih hi' fun k hk hk' => hlater k hk (by omega)

theorem lastAt_blank {j : ℕ} (h : ∀ k < history.length, slotOf period capacity k ≠ j) :
    lastAt period capacity blank j history = blank := by
  induction history with
  | nil => rfl
  | cons x history ih =>
    have hlength : (x :: history).length = history.length + 1 := List.length_cons
    rw [lastAt, if_neg (h _ (by omega))]
    exact ih fun k hk => h k (by omega)

/-- A slot that was written holds one of the values that went there. -/
theorem exists_lastAt {j k : ℕ} (hk : k < history.length) (hslot : slotOf period capacity k = j) :
    ∃ i, ∃ hi : i < history.length, slotOf period capacity (history.length - 1 - i) = j ∧
      lastAt period capacity blank j history = history[i] := by
  induction history with
  | nil => exact absurd hk (Nat.not_lt_zero k)
  | cons x history ih =>
    have hlength : (x :: history).length = history.length + 1 := List.length_cons
    by_cases hfirst : slotOf period capacity history.length = j
    · refine ⟨0, by omega, by simpa using hfirst, ?_⟩
      rw [lastAt, if_pos hfirst]
      rfl
    · have hlt : k < history.length := by
        have hne : k ≠ history.length := by
          rintro rfl
          exact hfirst hslot
        omega
      obtain ⟨i, hi, hsame, hlast⟩ := ih hlt
      have hback : (x :: history).length - 1 - (i + 1) = history.length - 1 - i := by omega
      refine ⟨i + 1, by omega, by rw [hback]; exact hsame, ?_⟩
      rw [lastAt, if_neg hfirst, hlast]
      rfl

/-! ## Reading back -/

theorem mod_period_sub {o : ℕ} (hle : o ≤ n % period) : (n - o) % period = n % period - o := by
  have hdiv := Nat.div_add_mod n period
  rcases Nat.eq_zero_or_pos period with rfl | hpos
  · simp
  · have hlt := Nat.mod_lt n hpos
    have hsplit : n - o = (n % period - o) + period * (n / period) := by omega
    rw [hsplit, Nat.add_mul_mod_self_left, Nat.mod_eq_of_lt (by omega)]

/-- Within the current round the reading goes back write by write. -/
theorem indexOf_eq_of_le {o : ℕ} (hle : o ≤ n % period) :
    indexOf capacity (n % period) o = slotOf period capacity (n - o) := by
  rw [indexOf, if_pos hle, slotOf, mod_period_sub hle]

theorem slotOf_of_dvd (h : capacity ∣ period) (k : ℕ) : slotOf period capacity k = k % capacity :=
  Nat.mod_mod_of_dvd k h

theorem indexOf_eq (haligned : Aligned period capacity n) {o : ℕ}
    (hcapacity : o ≤ capacity) (hle : o ≤ n) :
    indexOf capacity (n % period) o = slotOf period capacity (n - o) := by
  by_cases hround : o ≤ n % period
  · exact indexOf_eq_of_le hround
  · rcases haligned with hlt | hdvd | hfull
    · rw [Nat.mod_eq_of_lt hlt] at hround
      exact absurd hle hround
    · have hhead : n % period % capacity = n % capacity := Nat.mod_mod_of_dvd n hdvd
      rw [slotOf_of_dvd hdvd, indexOf, if_neg hround]
      have hmod : capacity + n % period - o + o ≡ n - o + o [MOD capacity] := by
        rw [Nat.sub_add_cancel (by omega), Nat.sub_add_cancel hle]
        exact (Nat.add_mod_left capacity (n % period)).trans hhead
      exact Nat.ModEq.add_right_cancel' o hmod
    · omega

/-- The offsets of a round lead to every slot, each to its own. -/
theorem indexOf_perm (capacity head : ℕ) :
    ((List.range' 1 capacity).map (indexOf capacity head)).Perm (List.range capacity) := by
  have hback : ∀ o, o ≤ capacity → indexOf capacity head o + o ≡ head [MOD capacity] := by
    intro o ho
    unfold indexOf
    by_cases hle : o ≤ head
    · rw [if_pos hle]
      have hsum := (Nat.mod_modEq (head - o) capacity).add_right o
      rwa [Nat.sub_add_cancel hle] at hsum
    · rw [if_neg hle]
      have hsum := (Nat.mod_modEq (capacity + head - o) capacity).add_right o
      rw [Nat.sub_add_cancel (by omega)] at hsum
      exact hsum.trans (Nat.add_mod_left capacity head)
  have hnodup : ((List.range' 1 capacity).map (indexOf capacity head)).Nodup := by
    refine List.Nodup.map_on ?_ List.nodup_range'
    intro o ho o' ho' hsame
    rw [List.mem_range'_1] at ho ho'
    have hmod : indexOf capacity head o + o ≡ indexOf capacity head o + o' [MOD capacity] := by
      have ho'' := hback o' (by omega)
      rw [← hsame] at ho''
      exact (hback o (by omega)).trans ho''.symm
    have hsub : o - 1 ≡ o' - 1 [MOD capacity] := by
      apply Nat.ModEq.add_right_cancel' 1
      rw [Nat.sub_add_cancel ho.1, Nat.sub_add_cancel ho'.1]
      exact Nat.ModEq.add_left_cancel' _ hmod
    have heq : o - 1 = o' - 1 := hsub.eq_of_lt_of_lt (by omega) (by omega)
    omega
  have hsubset : (List.range' 1 capacity).map (indexOf capacity head) ⊆ List.range capacity := by
    intro i hi
    obtain ⟨o, ho, rfl⟩ := List.mem_map.mp hi
    rw [List.mem_range'_1] at ho
    exact List.mem_range.mpr (indexOf_lt (by omega))
  refine (List.subperm_of_subset hnodup hsubset).perm_of_length_le ?_
  rw [List.length_map, List.length_range, List.length_range']

/-- The last round of writes goes to different slots. -/
theorem slotOf_ne (haligned : Aligned period capacity n) {k k' : ℕ} (hk : n ≤ k + capacity)
    (hlt : k < k') (hk' : k' < n) : slotOf period capacity k' ≠ slotOf period capacity k := by
  have hmod : ∀ a b : ℕ, a < b → b < a + capacity → b % capacity ≠ a % capacity := by
    intro a b hab hb hsame
    have hdvd : capacity ∣ b - a := (Nat.modEq_iff_dvd' hab.le).mp hsame.symm
    have hle := Nat.le_of_dvd (by omega) hdvd
    omega
  rcases haligned with hn | hdvd | hfull
  · rw [slotOf, slotOf, Nat.mod_eq_of_lt (hk'.trans hn), Nat.mod_eq_of_lt ((hlt.trans hk').trans hn)]
    exact hmod k k' hlt (by omega)
  · rw [slotOf_of_dvd hdvd, slotOf_of_dvd hdvd]
    exact hmod k k' hlt (by omega)
  · have hback : ∀ j, n ≤ j + capacity → j < n → j % period = n % period - (n - j) := by
      intro j hj hjn
      have hsub : n - (n - j) = j := by omega
      have hle : n - j ≤ n % period := by omega
      have h := mod_period_sub hle
      rwa [hsub] at h
    rw [slotOf, slotOf, hback k hk (hlt.trans hk'), hback k' (by omega) hk']
    exact hmod _ _ (by omega) (by omega)

/-- What is read at an offset is the value written so many writes before, if there is one. -/
theorem lastAt_indexOf (haligned : Aligned period capacity history.length) (hpos : 0 < period)
    {o : ℕ} (ho : 1 ≤ o) (hcapacity : o ≤ capacity) :
    lastAt period capacity blank (indexOf capacity (history.length % period) o) history =
      history.getD (o - 1) blank := by
  by_cases hle : o ≤ history.length
  · have hnumber : history.length - o = history.length - 1 - (o - 1) := by omega
    have hi : o - 1 < history.length := by omega
    rw [indexOf_eq haligned hcapacity hle, hnumber,
      lastAt_recent hi fun k hk hk' => slotOf_ne haligned (by omega) hk hk',
      List.getD_eq_getElem _ _ hi]
  · have hnone : history.getD (o - 1) blank = blank := List.getD_eq_default _ _ (by omega)
    rw [hnone]
    apply lastAt_blank
    intro k hk
    have hsmall : history.length < period := by
      rcases haligned with h | h | h
      · exact h
      · exact (by omega : history.length < capacity).trans_le (Nat.le_of_dvd hpos h)
      · have hmod := Nat.mod_le history.length period
        omega
    have hread : (capacity + history.length - o) % capacity = capacity + history.length - o :=
      Nat.mod_eq_of_lt (by omega)
    have hwritten : k % period = k := Nat.mod_eq_of_lt (by omega)
    have hslot : k % capacity = k := Nat.mod_eq_of_lt (by omega)
    rw [Nat.mod_eq_of_lt hsmall, indexOf, if_neg hle, slotOf, hread, hwritten, hslot]
    omega

/-- Where the turn is broken, the reading goes from the newest round to a value that is not the one
written before. -/
theorem lastAt_broken (h : ¬ Aligned period capacity history.length) (hcapacity : 0 < capacity)
    (hsize : capacity ≤ period) :
    ∃ i, ∃ hi : i < history.length, i ≠ history.length % period ∧
      lastAt period capacity blank
        (indexOf capacity (history.length % period) (history.length % period + 1)) history =
          history[i] := by
  simp only [Aligned, not_or, not_lt, not_le] at h
  obtain ⟨hlong, hdvd, hhead⟩ := h
  have hpos : 0 < period := hcapacity.trans_le hsize
  have hindex : indexOf capacity (history.length % period) (history.length % period + 1) =
      capacity - 1 := by
    rw [indexOf, if_neg (by omega)]
    have hsub : capacity + history.length % period - (history.length % period + 1) =
        capacity - 1 := by omega
    rw [hsub, Nat.mod_eq_of_lt (by omega)]
  have hslot : slotOf period capacity (capacity - 1) = capacity - 1 := by
    have hnumber : (capacity - 1) % period = capacity - 1 := Nat.mod_eq_of_lt (by omega)
    rw [slotOf, hnumber, Nat.mod_eq_of_lt (by omega)]
  have hwritten : capacity - 1 < history.length := by omega
  have hfound : ∃ i, ∃ hi : i < history.length,
      slotOf period capacity (history.length - 1 - i) = capacity - 1 ∧
        lastAt period capacity blank (capacity - 1) history = history[i] :=
    exists_lastAt hwritten hslot
  obtain ⟨i, hi, hsame, hlast⟩ := hfound
  rw [hindex]
  refine ⟨i, hi, ?_, hlast⟩
  rintro rfl
  apply hdvd
  have hdiv := Nat.div_add_mod history.length period
  have hrounds : 1 ≤ history.length / period := Nat.div_pos hlong hpos
  have hlastSlot : (history.length - 1 - history.length % period) % period = period - 1 := by
    have hsplit : history.length - 1 - history.length % period =
        (period - 1) + period * (history.length / period - 1) := by
      have hmul : period * (history.length / period) =
          period * (history.length / period - 1) + period := by
        rw [← Nat.mul_succ, Nat.succ_eq_add_one, Nat.sub_add_cancel hrounds]
      omega
    rw [hsplit, Nat.add_mul_mod_self_left, Nat.mod_eq_of_lt (by omega)]
  rw [slotOf, hlastSlot] at hsame
  have hmod : period - 1 + 1 ≡ capacity - 1 + 1 [MOD capacity] := by
    apply Nat.ModEq.add_right
    rw [Nat.ModEq, hsame, Nat.mod_eq_of_lt (by omega)]
  rw [Nat.sub_add_cancel hpos, Nat.sub_add_cancel hcapacity] at hmod
  exact (Nat.modEq_zero_iff_dvd.mp (hmod.trans (Nat.mod_self capacity)))

end RingHistory
