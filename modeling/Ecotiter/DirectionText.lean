import Ecotiter.CommandLine

/-!
# The names of the directions

`parseDirection` copies two windows of three bytes out of the string and compares what they begin
with. The byte between the windows and what follows the second one are not looked at.
-/

namespace Ecotiter

def stringBytes (s : String) : List UInt8 := s.toUTF8.data.toList

/-- `std::copy_n` of `n` bytes of an array, `none` if it has not that many from `i` on. -/
def copyN (array : List UInt8) (i n : ℕ) : Option (List UInt8) :=
  if i + n ≤ array.length then some ((array.drop i).take n) else none

/-- What `parseDirection` makes of the bytes of a string. The array of a string ends with a
terminator; `none` where the code would read behind it. -/
def directionOf (s : List UInt8) : Option (Option Direction) :=
  if s.length < 6 then some none
  else do
    let first ← copyN (s ++ [0]) 0 3
    if first.map toLower = stringBytes "liq" then
      let second ← copyN (s ++ [0]) 4 3
      let suffix := second.map toLower
      if suffix.take 2 = stringBytes "in" then return some .liqIn
      else if suffix = stringBytes "out" then return some .liqOut
      else return none
    else return none

def equalsIgnoringCase (s t : String) : Prop := (stringBytes s).map toLower = stringBytes t

/-- Of the strings exactly the two names are taken for directions, whatever the case of their
letters, and no byte outside of a string is read. -/
structure ParsesDirection (s : String) : Prop where
  liqIn : ∀ j key, j.stringAt key = some s →
    (parseDirection j key = some .liqIn ↔ equalsIgnoringCase s "liq_in")
  liqOut : ∀ j key, j.stringAt key = some s →
    (parseDirection j key = some .liqOut ↔ equalsIgnoringCase s "liq_out")
  inside : (directionOf (stringBytes s)).isSome

/-- The text has the letters of a direction in their places and is not its name. -/
def Lookalike (s : String) : Prop :=
  ∃ c rest, c :: rest ≠ stringBytes "_" ∧
    ((stringBytes s).map toLower = stringBytes "liq" ++ c :: (stringBytes "in" ++ rest) ∨
      (stringBytes s).map toLower = stringBytes "liq" ++ c :: (stringBytes "out" ++ rest))

theorem stringBytes_names : stringBytes "liq" = [108, 105, 113] ∧ stringBytes "in" = [105, 110] ∧
    stringBytes "out" = [111, 117, 116] := by decide

theorem directionOf_isSome (s : List UInt8) : (directionOf s).isSome := by
  by_cases hlen : s.length < 6
  · rw [directionOf, if_pos hlen]
    rfl
  · have hroom : (s ++ [0]).length = s.length + 1 := by simp
    rw [directionOf, if_neg hlen, copyN, if_pos (by omega), copyN, if_pos (by omega)]
    simp only [Option.bind_eq_bind, Option.bind_some]
    repeat' split
    all_goals rfl

/-- The two windows of a text that is long enough. -/
theorem directionOf_windows (a b c d e f : UInt8) (s : List UInt8) :
    directionOf (a :: b :: c :: d :: e :: f :: s) =
      some (if [a, b, c].map toLower = stringBytes "liq" then
          if [e, f].map toLower = stringBytes "in" then some .liqIn
          else if [e, f, s.headD 0].map toLower = stringBytes "out" then some .liqOut
          else none
        else none) := by
  have hlong : ¬ (a :: b :: c :: d :: e :: f :: s).length < 6 := by
    simp only [List.length_cons]
    omega
  rw [directionOf, if_neg hlong]
  cases s with
  | nil =>
    simp only [copyN, List.length_append, List.length_cons, List.length_nil, Nat.reduceAdd,
      Nat.reduceLeDiff, if_true, Option.bind_eq_bind, Option.bind_some]
    split_ifs <;> first | rfl | contradiction
  | cons g s =>
    have hroom : 4 + 3 ≤ (a :: b :: c :: d :: e :: f :: g :: s ++ [0]).length := by
      simp only [List.length_append, List.length_cons]
      omega
    rw [copyN, if_pos (by omega), copyN, if_pos hroom]
    simp only [Option.bind_eq_bind, Option.bind_some]
    split_ifs <;> first | rfl | contradiction

theorem directionOf_short {s : List UInt8} (h : s.length < 6) : directionOf s = some none := by
  rw [directionOf, if_pos h]

/-- Every text is too short or has its two windows. -/
theorem short_or_windows (s : List UInt8) :
    s.length < 6 ∨ ∃ a b c d e f rest, s = a :: b :: c :: d :: e :: f :: rest := by
  rcases s with _ | ⟨a, _ | ⟨b, _ | ⟨c, _ | ⟨d, _ | ⟨e, _ | ⟨f, rest⟩⟩⟩⟩⟩⟩
  case cons.cons.cons.cons.cons.cons => exact .inr ⟨a, b, c, d, e, f, rest, rfl⟩
  all_goals exact .inl (by simp)

theorem directionOf_liqIn (s : List UInt8) : directionOf s = some (some .liqIn) ↔
    ∃ c rest, s.map toLower = stringBytes "liq" ++ c :: (stringBytes "in" ++ rest) := by
  obtain ⟨hliq, hin, hout⟩ := stringBytes_names
  rcases short_or_windows s with hshort | ⟨a, b, c, d, e, f, rest, rfl⟩
  · rw [directionOf_short hshort]
    refine ⟨nofun, ?_⟩
    rintro ⟨c, rest, h⟩
    have hlen := congrArg List.length h
    simp [hliq, hin] at hlen
    omega
  · rw [directionOf_windows, hliq, hin, hout]
    constructor
    · intro h
      split_ifs at h with hfirst hsecond hthird
      · simp only [List.map_cons, List.map_nil, List.cons.injEq] at hfirst hsecond
        refine ⟨toLower d, rest.map toLower, ?_⟩
        simp [hfirst, hsecond]
      · cases h
      · cases h
      · cases h
    · rintro ⟨x, more, h⟩
      simp only [List.map_cons, List.cons_append, List.nil_append, List.cons.injEq] at h
      simp [h]

theorem directionOf_liqOut (s : List UInt8) : directionOf s = some (some .liqOut) ↔
    ∃ c rest, s.map toLower = stringBytes "liq" ++ c :: (stringBytes "out" ++ rest) := by
  obtain ⟨hliq, hin, hout⟩ := stringBytes_names
  rcases short_or_windows s with hshort | ⟨a, b, c, d, e, f, rest, rfl⟩
  · rw [directionOf_short hshort]
    refine ⟨nofun, ?_⟩
    rintro ⟨c, rest, h⟩
    have hlen := congrArg List.length h
    simp [hliq, hout] at hlen
    omega
  · rw [directionOf_windows, hliq, hin, hout]
    constructor
    · intro h
      split_ifs at h with hfirst hsecond hthird
      · cases h
      · cases rest with
        | nil => simp [toLower] at hthird
        | cons g rest =>
          simp only [List.map_cons, List.map_nil, List.cons.injEq, List.headD_cons] at hfirst hthird
          refine ⟨toLower d, rest.map toLower, ?_⟩
          simp [hfirst, hthird]
      · cases h
      · cases h
    · rintro ⟨x, more, h⟩
      cases rest with
      | nil => simp at h
      | cons g rest =>
        simp only [List.map_cons, List.cons_append, List.nil_append, List.cons.injEq] at h
        simp [h]

/-- `parseDirection` is the recogniser on the bytes of the string. -/
theorem parseDirection_eq {j : Json} {key s : String} (h : j.stringAt key = some s)
    (d : Direction) : parseDirection j key = some d ↔ directionOf (stringBytes s) = some (some d) := by
  have hcode : parseDirection j key =
      if (stringBytes s).length < 6 then none
      else if ((stringBytes s).take 3).map toLower = stringBytes "liq" then
        if ((((stringBytes s).drop 4).take 3).map toLower).take 2 = stringBytes "in" then some .liqIn
        else if (((stringBytes s).drop 4).take 3).map toLower = stringBytes "out" then some .liqOut
        else none
      else none := by
    rw [parseDirection, h]
    rfl
  rw [hcode]
  rcases short_or_windows (stringBytes s) with hshort | ⟨a, b, c, d, e, f, rest, hs⟩
  · rw [if_pos hshort, directionOf_short hshort]
    simp
  · have hlong : ¬ (a :: b :: c :: d :: e :: f :: rest).length < 6 := by
      simp only [List.length_cons]
      omega
    have hthird : (((a :: b :: c :: d :: e :: f :: rest).drop 4).take 3).map toLower = stringBytes "out" ↔
        [e, f, rest.headD 0].map toLower = stringBytes "out" := by
      rw [stringBytes_names.2.2]
      cases rest with
      | nil => simp [toLower]
      | cons g rest => rfl
    rw [hs, directionOf_windows, if_neg hlong, Option.some.injEq]
    simp only [hthird]
    rfl

/-- A direction is recognised by its name and by what looks like it. -/
theorem named_or_lookalike {name s : List UInt8} :
    ((∃ c rest, s = stringBytes "liq" ++ c :: (name ++ rest)) ↔ s = stringBytes "liq" ++ stringBytes "_" ++ name) ↔
      ¬ ∃ c rest, c :: rest ≠ stringBytes "_" ∧ s = stringBytes "liq" ++ c :: (name ++ rest) := by
  have hunderscore : stringBytes "_" = [95] := by decide
  rw [hunderscore]
  constructor
  · rintro h ⟨c, rest, hother, hs⟩
    have hname := h.mp ⟨c, rest, hs⟩
    rw [hs, List.append_assoc, List.append_cancel_left_eq, List.singleton_append,
      List.cons.injEq] at hname
    obtain ⟨rfl, hname⟩ := hname
    have hrest : rest = [] := by
      have hlen := congrArg List.length hname
      rw [List.length_append] at hlen
      exact List.length_eq_zero_iff.mp (by omega)
    exact hother (by rw [hrest])
  · intro h
    constructor
    · rintro ⟨c, rest, hs⟩
      by_cases hsame : c :: rest = [95]
      · cases hsame
        rw [hs]
        simp
      · exact absurd ⟨c, rest, hsame, hs⟩ h
    · intro hs
      refine ⟨95, [], ?_⟩
      rw [hs]
      simp

/-- `parseDirection` accepts exactly the two names, except for the texts that look like one. -/
theorem parsesDirection_iff (s : String) : ParsesDirection s ↔ ¬ Lookalike s := by
  have hin : stringBytes "liq_in" = stringBytes "liq" ++ stringBytes "_" ++ stringBytes "in" := by decide
  have hout : stringBytes "liq_out" = stringBytes "liq" ++ stringBytes "_" ++ stringBytes "out" := by decide
  have hparts : Lookalike s ↔
      (∃ c rest, c :: rest ≠ stringBytes "_" ∧
        (stringBytes s).map toLower = stringBytes "liq" ++ c :: (stringBytes "in" ++ rest)) ∨
      ∃ c rest, c :: rest ≠ stringBytes "_" ∧
        (stringBytes s).map toLower = stringBytes "liq" ++ c :: (stringBytes "out" ++ rest) := by
    simp only [Lookalike, and_or_left, exists_or]
  rw [hparts, not_or, ← named_or_lookalike, ← named_or_lookalike, ← hin, ← hout]
  constructor
  · intro h
    have hstring : (Json.object [("direction", .string s)]).stringAt "direction" = some s := rfl
    rw [← directionOf_liqIn, ← directionOf_liqOut]
    exact ⟨(parseDirection_eq hstring .liqIn).symm.trans (h.liqIn _ _ hstring),
      (parseDirection_eq hstring .liqOut).symm.trans (h.liqOut _ _ hstring)⟩
  · rintro ⟨h1, h2⟩
    rw [← directionOf_liqIn] at h1
    rw [← directionOf_liqOut] at h2
    exact ⟨fun j key hj => (parseDirection_eq hj .liqIn).trans h1,
      fun j key hj => (parseDirection_eq hj .liqOut).trans h2, directionOf_isSome _⟩

/-- A text behind the name and a byte that is no underscore. -/
theorem liqInverse_accepted : ¬ ParsesDirection "liq-inverse" := by
  intro h
  have hstring : (Json.object [("direction", .string "liq-inverse")]).stringAt "direction" =
    some "liq-inverse" := rfl
  have haccepted : parseDirection (.object [("direction", .string "liq-inverse")]) "direction" =
    some .liqIn := by decide
  have hname := (h.liqIn _ _ hstring).mp haccepted
  revert hname
  unfold equalsIgnoringCase
  decide

end Ecotiter
