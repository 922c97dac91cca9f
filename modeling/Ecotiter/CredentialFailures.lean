import Ecotiter.WifiCredentials

/-!
# WiFi networks when writes fail

The results of the writes of `saveCredentials` are ignored, and a loss of power lets the writes up
to a point take effect. Either way some of the keys are written and the others keep what they had.
An eviction moves the SSID and the password of a slot by separate writes.
-/

namespace Ecotiter
open FifoMap

namespace WifiNvs

/-- After a call for `n` with the list `l`, only pairs that were saved together are read and only
the evicted network is gone. -/
structure Survives (saved : Network → Prop) (l : List Network) (n : Network) (after : WifiNvs) :
    Prop where
  paired : ∀ m, some m ∈ after.slots → saved m
  kept : ∀ m ∈ l, (∃ p, some (m.1, p) ∈ after.slots) ∨
    n.1 ∉ keys l ∧ l.length = maxNetworks ∧ l.head? = some m

/-- Only one of the two keys of a slot is written. -/
def Torn (takes : WifiKey → Bool) (i : ℕ) : Prop := takes (.ssid i) ≠ takes (.password i)

/-- A slot whose keys are written as far as the writes take effect. -/
def overlay (takes : WifiKey → Bool) (i : ℕ) (old new : Network) : Network :=
  (if takes (.ssid i) then new.1 else old.1, if takes (.password i) then new.2 else old.2)

/-- What is read in the slot of a new network when its keys are written as far as the writes take
effect. -/
def leftover (takes : WifiKey → Bool) (nvs : WifiNvs) (i : ℕ) (n : Network) : Option Network := do
  let ssid ← if takes (.ssid i) then some n.1 else nvs.wifiReadStr (.ssid i) 64
  let password ← if takes (.password i) then some n.2 else nvs.wifiReadStr (.password i) 64
  return (ssid, password)

/-- The writes of an eviction that take effect: no slot is torn, unless its pair was saved once, and
no slot gives its network away before the slot below has taken it. -/
structure EvictsSafely (saved : Network → Prop) (takes : WifiKey → Bool) (l : List Network)
    (n : Network) : Prop where
  whole : ∀ i (h : i < l.length) (h' : i < (l.tail ++ [n]).length), Torn takes i →
    saved (overlay takes i l[i] (l.tail ++ [n])[i])
  inOrder : ∀ i, i + 1 < l.length → takes (.ssid (i + 1)) → takes (.ssid i)

/-- The writes of a new last network that take effect: both its keys before the count, unless what
its slot then holds was saved once. -/
def AppendsSafely (saved : Network → Prop) (takes : WifiKey → Bool) (nvs : WifiNvs)
    (l : List Network) (n : Network) : Prop :=
  takes .count → (takes (.ssid l.length) ∧ takes (.password l.length)) ∨
    ∀ m, leftover takes nvs l.length n = some m → saved m

/-- The writes of a call that take effect do no harm. -/
def WritesSafely (saved : Network → Prop) (takes : WifiKey → Bool) (nvs : WifiNvs)
    (l : List Network) (n : Network) : Prop :=
  n.1 ∉ keys l →
    if l.length < maxNetworks then AppendsSafely saved takes nvs l n
    else EvictsSafely saved takes l n

section
variable {saved : Network → Prop} {takes : WifiKey → Bool} {nvs after : WifiNvs}
  {l : List Network} {n m : Network}

theorem mem_slots : some m ∈ after.slots ↔ ∃ i < after.wifiReadCount, after.slot i = some m := by
  simp [slots]

/-- Which pair a slot holds. -/
theorem slot_eq {i : ℕ} {ssid password : CString} (hssid : after.str (.ssid i) = some ssid)
    (hpassword : after.str (.password i) = some password) (hs : ssid.length ≤ 63)
    (hp : password.length ≤ 63) : after.slot i = some (ssid, password) := by
  simp [slot, wifiReadStr_of_fits hssid hs, wifiReadStr_of_fits hpassword hp]

theorem fits_ssid (h : n.Fits) : n.1.length ≤ 63 := by
  have hssid := h.1
  omega

/-- A new password for a known network. -/
theorem survives_updated (hl : nvs.Holds l) (hn : n.Fits) (hknown : n.1 ∈ keys l)
    (hsaved : ∀ m ∈ l, saved m) (hnew : saved n) :
    Survives saved l n (nvs.saveCredentials takes n.1 n.2) := by
  obtain ⟨j, hj, hsame, hafter⟩ := hl.updated hknown takes
  rw [hafter]
  have hcount : (nvs.wifiWriteStr takes (.password j) n.2).wifiReadCount = l.length := by
    rw [wifiReadCount, wifiWriteStr_count]
    exact hl.count
  have hslot : ∀ i (h : i < l.length), (nvs.wifiWriteStr takes (.password j) n.2).slot i =
      some (if i = j ∧ takes (.password j) then n else l[i]) := by
    intro i hi
    have hfits := hl.fits l[i] (List.getElem_mem hi)
    have hssid : (nvs.wifiWriteStr takes (.password j) n.2).str (.ssid i) = some l[i].1 := by
      simp [hl.ssid i hi]
    by_cases hwritten : i = j ∧ takes (.password j)
    · obtain ⟨rfl, htakes⟩ := hwritten
      have hpassword : (nvs.wifiWriteStr takes (.password i) n.2).str (.password i) = some n.2 := by
        simp [htakes]
      rw [slot_eq hssid hpassword (fits_ssid hfits) hn.2, if_pos ⟨rfl, htakes⟩, hsame]
    · have hpassword : (nvs.wifiWriteStr takes (.password j) n.2).str (.password i) =
          some l[i].2 := by
        rw [wifiWriteStr_str, if_neg, hl.password i hi]
        intro h
        obtain ⟨heq, htakes⟩ := h
        cases heq
        exact hwritten ⟨rfl, htakes⟩
      rw [slot_eq hssid hpassword (fits_ssid hfits) hfits.2, if_neg hwritten]
  refine ⟨fun m hm => ?_, fun m hm => .inl ?_⟩
  · obtain ⟨i, hi, heq⟩ := mem_slots.mp hm
    rw [hcount] at hi
    rw [hslot i hi] at heq
    obtain rfl := Option.some.inj heq
    split
    · exact hnew
    · exact hsaved _ (List.getElem_mem hi)
  · obtain ⟨i, hi, rfl⟩ := List.getElem_of_mem hm
    by_cases hwritten : i = j ∧ takes (.password j)
    · refine ⟨n.2, mem_slots.mpr ⟨i, hcount ▸ hi, ?_⟩⟩
      rw [hslot i hi, if_pos hwritten]
      obtain ⟨rfl, -⟩ := hwritten
      rw [hsame]
    · refine ⟨l[i].2, mem_slots.mpr ⟨i, hcount ▸ hi, ?_⟩⟩
      rw [hslot i hi, if_neg hwritten]

theorem wifiReadStr_taken {nvs' : WifiNvs} {key : WifiKey} {value : CString}
    (hlen : value.length ≤ 63)
    (hstr : nvs'.str key = if takes key then some value else nvs.str key) :
    nvs'.wifiReadStr key 64 = if takes key then some value else nvs.wifiReadStr key 64 := by
  by_cases htakes : takes key
  · rw [if_pos htakes] at hstr ⊢
    exact wifiReadStr_of_fits hstr hlen
  · rw [if_neg htakes] at hstr ⊢
    rw [wifiReadStr, wifiReadStr, hstr]

theorem slot_appended (hl : nvs.Holds l) (hn : n.Fits) (hnew : n.1 ∉ keys l)
    (hroom : l.length < maxNetworks) (takes : WifiKey → Bool) :
    (∀ i (h : i < l.length), (nvs.saveCredentials takes n.1 n.2).slot i = some l[i]) ∧
    (nvs.saveCredentials takes n.1 n.2).slot l.length = leftover takes nvs l.length n ∧
    (nvs.saveCredentials takes n.1 n.2).wifiReadCount =
      if takes .count then l.length + 1 else l.length := by
  rw [hl.appended hroom hnew takes]
  refine ⟨fun i hi => ?_, ?_, ?_⟩
  · have hfits := hl.fits l[i] (List.getElem_mem hi)
    have hne : i ≠ l.length := by omega
    refine slot_eq ?_ ?_ (fits_ssid hfits) hfits.2
    · simp [hne, hl.ssid i hi]
    · simp [hne, hl.password i hi]
  · generalize hnvs : WifiNvs.wifiWriteCount _ _ _ = nvs'
    have hssid : nvs'.wifiReadStr (.ssid l.length) 64 =
        if takes (.ssid l.length) then some n.1 else nvs.wifiReadStr (.ssid l.length) 64 :=
      wifiReadStr_taken (fits_ssid hn) (by simp [← hnvs])
    have hpassword : nvs'.wifiReadStr (.password l.length) 64 =
        if takes (.password l.length) then some n.2
        else nvs.wifiReadStr (.password l.length) 64 :=
      wifiReadStr_taken hn.2 (by simp [← hnvs])
    rw [slot, leftover, hssid, hpassword]
    by_cases hs : takes (.ssid l.length)
    · by_cases hp : takes (.password l.length)
      · simp [hs, hp]
      · simp [hs, hp]
    · by_cases hp : takes (.password l.length)
      · simp [hs, hp]
      · simp [hs, hp]
  · have hsmall : (l.length + 1) % 2 ^ 8 = l.length + 1 := by
      have hmax : maxNetworks = 5 := rfl
      omega
    have hcount := hl.count
    unfold wifiReadCount at hcount ⊢
    by_cases hc : takes .count
    · simp only [wifiWriteCount, if_pos hc, hsmall, Option.getD_some]
    · simp [wifiWriteCount, hc, hcount]

/-- A new network after the others. -/
theorem survives_appended_iff (hl : nvs.Holds l) (hn : n.Fits) (hnew : n.1 ∉ keys l)
    (hroom : l.length < maxNetworks) (hsaved : ∀ m ∈ l, saved m) (hsavedNew : saved n) :
    Survives saved l n (nvs.saveCredentials takes n.1 n.2) ↔ AppendsSafely saved takes nvs l n := by
  obtain ⟨hslot, hlast, hcount⟩ := slot_appended hl hn hnew hroom takes
  constructor
  · intro h hc
    refine .inr fun m hm => h.paired m (mem_slots.mpr ⟨l.length, ?_, hlast.trans hm⟩)
    rw [hcount, if_pos hc]
    omega
  · intro h
    have hin : ∀ i, i < l.length → i < (nvs.saveCredentials takes n.1 n.2).wifiReadCount := by
      intro i hi
      rw [hcount]
      split <;> omega
    refine ⟨fun m hm => ?_, fun m hm => .inl ?_⟩
    · obtain ⟨i, hi, heq⟩ := mem_slots.mp hm
      by_cases hold : i < l.length
      · rw [hslot i hold] at heq
        obtain rfl := Option.some.inj heq
        exact hsaved _ (List.getElem_mem hold)
      · rw [hcount] at hi
        by_cases hc : takes .count
        · rw [if_pos hc] at hi
          obtain rfl : i = l.length := by omega
          rw [hlast] at heq
          obtain ⟨hs, hp⟩ | hleft := h hc
          · have hboth : leftover takes nvs l.length n = some n := by
              simp [leftover, hs, hp]
            rw [hboth] at heq
            obtain rfl := Option.some.inj heq
            exact hsavedNew
          · exact hleft m heq
        · rw [if_neg hc] at hi
          exact absurd hi hold
    · obtain ⟨i, hi, rfl⟩ := List.getElem_of_mem hm
      exact ⟨l[i].2, mem_slots.mpr ⟨i, hin i hi, hslot i hi⟩⟩

theorem slot_evicted (hl : nvs.Holds l) (hn : n.Fits) (hnew : n.1 ∉ keys l)
    (hfull : l.length = maxNetworks) (takes : WifiKey → Bool) :
    (∀ i (h : i < l.length) (h' : i < (l.tail ++ [n]).length),
      (nvs.saveCredentials takes n.1 n.2).slot i =
        some (overlay takes i l[i] (l.tail ++ [n])[i])) ∧
    (nvs.saveCredentials takes n.1 n.2).wifiReadCount = l.length := by
  obtain ⟨hssid, hpassword, hcount⟩ := hl.evicted hfull hnew takes
  refine ⟨fun i h h' => ?_, hcount⟩
  have hold := hl.fits l[i] (List.getElem_mem h)
  have hnext : Network.Fits (l.tail ++ [n])[i] := by
    obtain hm | hm := List.mem_append.mp (List.getElem_mem h')
    · exact hl.fits _ (List.mem_of_mem_tail hm)
    · rw [List.mem_singleton.mp hm]
      exact hn
  refine slot_eq (hssid i h h') (hpassword i h h') ?_ ?_
  · split
    · exact fits_ssid hnext
    · exact fits_ssid hold
  · split
    · exact hnext.2
    · exact hold.2

theorem length_next (hfull : l.length = maxNetworks) : (l.tail ++ [n]).length = l.length := by
  rw [List.length_append, List.length_tail, List.length_singleton, hfull]
  rfl

/-- An SSID is read after an eviction in its own slot or in the one below. -/
theorem ssid_overlay {i j : ℕ} (hl : nvs.Holds l) (hnew : n.1 ∉ keys l) (hi : i < l.length)
    (hj : j < l.length) (hj' : j < (l.tail ++ [n]).length)
    (h : (overlay takes j l[j] (l.tail ++ [n])[j]).1 = l[i].1) :
    (takes (.ssid j) ∧ j + 1 = i) ∨ (¬ takes (.ssid j) ∧ j = i) := by
  unfold overlay at h
  by_cases ht : takes (.ssid j)
  · refine .inl ⟨ht, ?_⟩
    dsimp only at h
    rw [if_pos ht] at h
    by_cases hin : j + 1 < l.length
    · rw [next_getElem hin hj'] at h
      exact index_of_key hl.distinct hin hi h
    · rw [next_getElem_last (by omega) hj'] at h
      exact absurd (h ▸ List.mem_map_of_mem (List.getElem_mem hi)) hnew
  · refine .inr ⟨ht, ?_⟩
    dsimp only at h
    rw [if_neg ht] at h
    exact index_of_key hl.distinct hj hi h

/-- A new network in the place of the oldest. -/
theorem survives_evicted_iff (hl : nvs.Holds l) (hn : n.Fits) (hnew : n.1 ∉ keys l)
    (hfull : l.length = maxNetworks) (hsaved : ∀ m ∈ l, saved m) (hsavedNew : saved n) :
    Survives saved l n (nvs.saveCredentials takes n.1 n.2) ↔ EvictsSafely saved takes l n := by
  obtain ⟨hslot, hcount⟩ := slot_evicted hl hn hnew hfull takes
  have hlen := length_next (n := n) hfull
  constructor
  · intro h
    refine ⟨fun i hi hi' _ => ?_, fun i hi ht => ?_⟩
    · exact h.paired _ (mem_slots.mpr ⟨i, hcount ▸ hi, hslot i hi hi'⟩)
    · by_contra hstays
      obtain ⟨p, hread⟩ | ⟨-, -, hhead⟩ := h.kept l[i + 1] (List.getElem_mem hi)
      · obtain ⟨j, hj, heq⟩ := mem_slots.mp hread
        rw [hcount] at hj
        rw [hslot j hj (hlen ▸ hj)] at heq
        have hssid := congrArg Prod.fst (Option.some.inj heq)
        obtain ⟨htj, hij⟩ | ⟨htj, rfl⟩ := ssid_overlay hl hnew hi hj (hlen ▸ hj) hssid
        · obtain rfl : j = i := by omega
          exact hstays htj
        · exact htj ht
      · have hzero : 0 < l.length := by omega
        rw [List.head?_eq_getElem?, List.getElem?_eq_getElem hzero] at hhead
        have hfirst : l[0].1 = l[i + 1].1 := congrArg Prod.fst (Option.some.inj hhead)
        have hindex := index_of_key hl.distinct hzero hi hfirst
        omega
  · intro h
    refine ⟨fun m hm => ?_, fun m hm => ?_⟩
    · obtain ⟨i, hi, heq⟩ := mem_slots.mp hm
      rw [hcount] at hi
      have hi' : i < (l.tail ++ [n]).length := hlen ▸ hi
      rw [hslot i hi hi'] at heq
      obtain rfl := Option.some.inj heq
      by_cases htorn : Torn takes i
      · exact h.whole i hi hi' htorn
      · have hboth : takes (.ssid i) = takes (.password i) := not_not.mp htorn
        unfold overlay
        rw [hboth]
        by_cases ht : takes (.password i)
        · rw [if_pos ht, if_pos ht]
          by_cases hin : i + 1 < l.length
          · rw [next_getElem hin hi']
            exact hsaved _ (List.getElem_mem hin)
          · rw [next_getElem_last (by omega) hi']
            exact hsavedNew
        · rw [if_neg ht, if_neg ht]
          exact hsaved _ (List.getElem_mem hi)
    · obtain ⟨i, hi, rfl⟩ := List.getElem_of_mem hm
      by_cases ht : takes (.ssid i)
      · cases i with
        | zero =>
          refine .inr ⟨hnew, hfull, ?_⟩
          rw [List.head?_eq_getElem?, List.getElem?_eq_getElem hi]
        | succ i =>
          have hbelow : i < l.length := by omega
          have hbelow' : i < (l.tail ++ [n]).length := hlen ▸ hbelow
          have hmoved := h.inOrder i hi ht
          have hssid : (overlay takes i l[i] (l.tail ++ [n])[i]).1 = l[i + 1].1 := by
            rw [next_getElem hi hbelow']
            exact if_pos hmoved
          refine .inl ⟨(overlay takes i l[i] (l.tail ++ [n])[i]).2, ?_⟩
          rw [← hssid]
          exact mem_slots.mpr ⟨i, hcount ▸ hbelow, hslot i hbelow hbelow'⟩
      · have hi' : i < (l.tail ++ [n]).length := hlen ▸ hi
        have hssid : (overlay takes i l[i] (l.tail ++ [n])[i]).1 = l[i].1 := if_neg ht
        refine .inl ⟨(overlay takes i l[i] (l.tail ++ [n])[i]).2, ?_⟩
        rw [← hssid]
        exact mem_slots.mpr ⟨i, hcount ▸ hi, hslot i hi hi'⟩

/-- When a call leaves the list sound, whichever of its writes take effect. -/
theorem survives_iff (hl : nvs.Holds l) (hn : n.Fits) (hsaved : ∀ m ∈ l, saved m)
    (hnew : saved n) :
    Survives saved l n (nvs.saveCredentials takes n.1 n.2) ↔ WritesSafely saved takes nvs l n := by
  unfold WritesSafely
  by_cases hknown : n.1 ∈ keys l
  · exact ⟨fun _ h => absurd hknown h, fun _ => survives_updated hl hn hknown hsaved hnew⟩
  · by_cases hroom : l.length < maxNetworks
    · rw [if_pos hroom, survives_appended_iff hl hn hknown hroom hsaved hnew]
      exact ⟨fun h _ => h, fun h => h hknown⟩
    · have hfull : l.length = maxNetworks := by
        have h := hl.room
        omega
      rw [if_neg hroom, survives_evicted_iff hl hn hknown hfull hsaved hnew]
      exact ⟨fun h _ => h, fun h => h hknown⟩

end

/-- A full list. -/
def fiveNetworks : List Network :=
  [([1], [11]), ([2], [12]), ([3], [13]), ([4], [14]), ([5], [15])]

def sixthNetwork : Network := ([6], [16])

theorem fiveNetworks_holds : (store fiveNetworks).Holds fiveNetworks :=
  store_holds (h := fiveNetworks) (by decide)

/-- All writes of an eviction take effect. -/
theorem survives_evicted : Survives (· ∈ sixthNetwork :: fiveNetworks) fiveNetworks sixthNetwork
    ((store fiveNetworks).saveCredentials (fun _ => true) sixthNetwork.1 sixthNetwork.2) :=
  (survives_iff fiveNetworks_holds (by decide) (fun m hm => List.mem_cons_of_mem _ hm)
    (List.mem_cons_self ..)).mpr fun _ => ⟨fun i h h' htorn => absurd rfl htorn, fun _ _ _ => rfl⟩

/-- The power is lost after the first write of an eviction: the first slot has the SSID of the
second network and the password of the first. -/
theorem firstWrite_unpairs :
    ¬ Survives (· ∈ sixthNetwork :: fiveNetworks) fiveNetworks sixthNetwork
      ((store fiveNetworks).saveCredentials (fun key => key = .ssid 0) sixthNetwork.1
        sixthNetwork.2) := by
  intro h
  have hsafe := (survives_evicted_iff fiveNetworks_holds (by decide) (by decide) rfl
    (fun m hm => List.mem_cons_of_mem _ hm) (List.mem_cons_self ..)).mp h
  have htorn : (decide (WifiKey.ssid 0 = .ssid 0)) ≠ decide (WifiKey.password 0 = .ssid 0) := by
    decide
  have hpair := hsafe.whole 0 (by decide) (by decide) htorn
  exact absurd hpair (by decide)

end WifiNvs

end Ecotiter
