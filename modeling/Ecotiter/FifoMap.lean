import Mathlib.Data.List.Induction
import Mathlib.Data.List.Nodup

/-!
# Bounded maps that drop their oldest key

A list of keys with values. A key that is there keeps its place and gets the new value; a new key
comes last, and the first one makes room for it when the list is full. `replay` is what a history of
such insertions leaves.
-/

namespace FifoMap
variable {κ ν : Type}

def keys (l : List (κ × ν)) : List κ := l.map Prod.fst

theorem keys_append (l l' : List (κ × ν)) : keys (l ++ l') = keys l ++ keys l' :=
  List.map_append

theorem keys_tail (l : List (κ × ν)) : keys l.tail = (keys l).tail := List.map_tail

theorem index_of_key {l : List (κ × ν)} (hl : (keys l).Nodup) {i j : ℕ} (hi : i < l.length)
    (hj : j < l.length) (h : l[i].1 = l[j].1) : i = j := by
  have hi' : i < (keys l).length := by
    rwa [keys, List.length_map]
  have hj' : j < (keys l).length := by
    rwa [keys, List.length_map]
  have hkeys : (keys l)[i] = (keys l)[j] := by
    simpa only [keys, List.getElem_map] using h
  exact hl.getElem_inj_iff.mp hkeys

variable [DecidableEq κ]

def insert (cap : ℕ) (l : List (κ × ν)) (x : κ × ν) : List (κ × ν) :=
  if x.1 ∈ keys l then l.map fun y => if y.1 = x.1 then x else y
  else if l.length < cap then l ++ [x]
  else l.tail ++ [x]

def replay (cap : ℕ) (h : List (κ × ν)) : List (κ × ν) := h.foldl (insert cap) []

/-- The key entered at step `t` of the history and has been there since, if `present h` are the keys
after `h`. -/
def InsertedAt (present : List (κ × ν) → List κ) (h : List (κ × ν)) (k : κ) (t : ℕ) : Prop :=
  t < h.length ∧ k ∉ present (h.take t) ∧ ∀ u, t < u → u ≤ h.length → k ∈ present (h.take u)

/-- The keys a history leaves. -/
def replayKeys (cap : ℕ) (h : List (κ × ν)) : List κ := keys (replay cap h)

variable {cap : ℕ} {l h : List (κ × ν)} {x : κ × ν}

theorem replay_append_singleton (h : List (κ × ν)) (x : κ × ν) :
    replay cap (h ++ [x]) = insert cap (replay cap h) x := by
  simp only [replay, List.foldl_append, List.foldl_cons, List.foldl_nil]

theorem insert_of_mem (hx : x.1 ∈ keys l) :
    insert cap l x = l.map fun y => if y.1 = x.1 then x else y := if_pos hx

theorem insert_of_room (hx : x.1 ∉ keys l) (hroom : l.length < cap) :
    insert cap l x = l ++ [x] := by
  rw [insert, if_neg hx, if_pos hroom]

theorem insert_of_full (hx : x.1 ∉ keys l) (hfull : ¬ l.length < cap) :
    insert cap l x = l.tail ++ [x] := by
  rw [insert, if_neg hx, if_neg hfull]

theorem keys_insert_of_mem (hx : x.1 ∈ keys l) : keys (insert cap l x) = keys l := by
  rw [insert_of_mem hx, keys, keys, List.map_map]
  refine List.map_congr_left fun y _ => ?_
  by_cases hy : y.1 = x.1
  · simp [hy]
  · simp [hy]

theorem length_insert (hcap : 0 < cap) (hl : l.length ≤ cap) : (insert cap l x).length ≤ cap := by
  unfold insert
  split
  · rwa [List.length_map]
  · split
    · rw [List.length_append, List.length_singleton]
      omega
    · rw [List.length_append, List.length_tail, List.length_singleton]
      omega

theorem nodup_insert (hl : (keys l).Nodup) : (keys (insert cap l x)).Nodup := by
  by_cases hx : x.1 ∈ keys l
  · rwa [keys_insert_of_mem hx]
  · by_cases hroom : l.length < cap
    · rw [insert_of_room hx hroom, keys_append]
      exact hl.append (List.nodup_singleton _) (List.disjoint_singleton.mpr hx)
    · rw [insert_of_full hx hroom, keys_append, keys_tail]
      refine hl.tail.append (List.nodup_singleton _) (List.disjoint_singleton.mpr fun h => ?_)
      exact hx (List.mem_of_mem_tail h)

theorem length_replay (hcap : 0 < cap) (h : List (κ × ν)) : (replay cap h).length ≤ cap := by
  induction h using List.reverseRecOn with
  | nil => exact Nat.zero_le _
  | append_singleton h x ih =>
    rw [replay_append_singleton]
    exact length_insert hcap ih

theorem nodup_replay (h : List (κ × ν)) : (keys (replay cap h)).Nodup := by
  induction h using List.reverseRecOn with
  | nil => exact List.nodup_nil
  | append_singleton h x ih =>
    rw [replay_append_singleton]
    exact nodup_insert ih

/-- What the list holds for a key after an insertion. -/
theorem mem_insert {y : κ × ν} (hy : y ∈ insert cap l x) : y = x ∨ y ∈ l ∧ y.1 ≠ x.1 := by
  by_cases hx : x.1 ∈ keys l
  · rw [insert_of_mem hx] at hy
    obtain ⟨z, hz, rfl⟩ := List.mem_map.mp hy
    by_cases hsame : z.1 = x.1
    · exact .inl (if_pos hsame)
    · rw [if_neg hsame]
      exact .inr ⟨hz, hsame⟩
  · have hother : ∀ z ∈ l, z.1 ≠ x.1 := by
      intro z hz hsame
      exact hx (hsame ▸ List.mem_map_of_mem hz)
    by_cases hroom : l.length < cap
    · rw [insert_of_room hx hroom] at hy
      obtain hy | hy := List.mem_append.mp hy
      · exact .inr ⟨hy, hother y hy⟩
      · exact .inl (List.mem_singleton.mp hy)
    · rw [insert_of_full hx hroom] at hy
      obtain hy | hy := List.mem_append.mp hy
      · have hold := List.mem_of_mem_tail hy
        exact .inr ⟨hold, hother y hold⟩
      · exact .inl (List.mem_singleton.mp hy)

/-- The value of a key is the one inserted last. -/
theorem latest_replay {h : List (κ × ν)} {y : κ × ν} (hy : y ∈ replay cap h) :
    h.reverse.find? (fun z => z.1 = y.1) = some y := by
  induction h using List.reverseRecOn with
  | nil => cases hy
  | append_singleton h x ih =>
    rw [replay_append_singleton] at hy
    rw [List.reverse_append, List.reverse_singleton, List.singleton_append]
    obtain rfl | ⟨hold, hother⟩ := mem_insert hy
    · exact List.find?_cons_of_pos (decide_eq_true rfl)
    · have hne : decide (x.1 = y.1) = false := decide_eq_false (Ne.symm hother)
      rw [List.find?_cons, hne]
      exact ih hold

theorem InsertedAt.snoc {k : κ} {t : ℕ} (hk : InsertedAt (replayKeys cap) h k t)
    (hstays : k ∈ replayKeys cap (h ++ [x])) : InsertedAt (replayKeys cap) (h ++ [x]) k t := by
  obtain ⟨hlt, hbefore, hsince⟩ := hk
  refine ⟨?_, ?_, fun u htu hu => ?_⟩
  · rw [List.length_append]
    omega
  · rwa [List.take_append_of_le_length (Nat.le_of_lt hlt)]
  · rw [List.length_append, List.length_singleton] at hu
    by_cases hlast : u = h.length + 1
    · have hall : (h ++ [x]).take u = h ++ [x] := by
        rw [List.take_of_length_le]
        rw [List.length_append, List.length_singleton]
        omega
      rwa [hall]
    · rw [List.take_append_of_le_length (by omega)]
      exact hsince u htu (by omega)

theorem insertedAt_new (hnew : x.1 ∉ replayKeys cap h)
    (hthere : x.1 ∈ replayKeys cap (h ++ [x])) :
    InsertedAt (replayKeys cap) (h ++ [x]) x.1 h.length := by
  refine ⟨?_, ?_, fun u htu hu => ?_⟩
  · rw [List.length_append, List.length_singleton]
    omega
  · rwa [List.take_left]
  · rwa [List.take_of_length_le (by
      rw [List.length_append, List.length_singleton]
      omega)]

/-- A new last key comes after all that are kept. -/
theorem order_snoc {time : κ → ℕ} {kept : List κ}
    (hsorted : kept.Pairwise fun k k' => time k < time k')
    (hinserted : ∀ k ∈ kept, InsertedAt (replayKeys cap) h k (time k)) (hx : x.1 ∉ replayKeys cap h)
    (hold : ∀ k ∈ kept, k ∈ replayKeys cap h)
    (hkeys : replayKeys cap (h ++ [x]) = kept ++ [x.1]) :
    ∃ time : κ → ℕ, (replayKeys cap (h ++ [x])).Pairwise (fun k k' => time k < time k') ∧
      ∀ k ∈ replayKeys cap (h ++ [x]), InsertedAt (replayKeys cap) (h ++ [x]) k (time k) := by
  have hkept : ∀ k ∈ kept, Function.update time x.1 h.length k = time k := by
    intro k hk
    refine Function.update_of_ne (fun hsame => ?_) _ _
    exact hx (hsame ▸ hold k hk)
  have hlast : Function.update time x.1 h.length x.1 = h.length := Function.update_self ..
  refine ⟨Function.update time x.1 h.length, ?_, fun k hk => ?_⟩
  · rw [hkeys, List.pairwise_append]
    refine ⟨hsorted.imp_of_mem fun {k k'} hk hk' hlt => ?_, List.pairwise_singleton _ _, ?_⟩
    · rwa [hkept k hk, hkept k' hk']
    · intro k hk k' hk'
      rw [List.mem_singleton.mp hk', hlast, hkept k hk]
      exact (hinserted k hk).1
  · have hthere := hk
    rw [hkeys] at hk
    obtain hk | hk := List.mem_append.mp hk
    · rw [hkept k hk]
      exact (hinserted k hk).snoc hthere
    · obtain rfl := List.mem_singleton.mp hk
      rw [hlast]
      exact insertedAt_new hx hthere

/-- The keys are in the order in which they entered. -/
theorem ordered_replay (h : List (κ × ν)) : ∃ time : κ → ℕ,
    (replayKeys cap h).Pairwise (fun k k' => time k < time k') ∧
      ∀ k ∈ replayKeys cap h, InsertedAt (replayKeys cap) h k (time k) := by
  induction h using List.reverseRecOn with
  | nil => exact ⟨fun _ => 0, .nil, fun k hk => nomatch hk⟩
  | append_singleton h x ih =>
    obtain ⟨time, hsorted, hinserted⟩ := ih
    by_cases hx : x.1 ∈ replayKeys cap h
    · have hkeys : replayKeys cap (h ++ [x]) = replayKeys cap h := by
        rw [replayKeys, replay_append_singleton, keys_insert_of_mem hx]
        rfl
      refine ⟨time, by rwa [hkeys], fun k hk => ?_⟩
      exact (hinserted k (hkeys ▸ hk)).snoc hk
    · by_cases hroom : (replay cap h).length < cap
      · refine order_snoc hsorted hinserted hx (fun k hk => hk) ?_
        rw [replayKeys, replay_append_singleton, insert_of_room hx hroom, keys_append]
        rfl
      · have htail : ∀ k ∈ keys (replay cap h).tail, k ∈ replayKeys cap h := by
          intro k hk
          rw [keys_tail] at hk
          exact List.mem_of_mem_tail hk
        have htailSorted : (keys (replay cap h).tail).Pairwise fun k k' => time k < time k' := by
          rw [keys_tail]
          exact hsorted.tail
        refine order_snoc htailSorted (fun k hk => hinserted k (htail k hk)) hx htail ?_
        rw [replayKeys, replay_append_singleton, insert_of_full hx hroom, keys_append]
        rfl

end FifoMap
