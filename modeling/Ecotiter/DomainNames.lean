import Ecotiter.CheckedMemory
import Ecotiter.DnsResponse

/-!
# Domain names and the memory of the DNS functions

`extractDomainName` of `dns.hpp`, and `buildDnsResponse` with every access to its arrays checked. The
labels of the query say how far the cursor jumps. No access leaves an array, and what is extracted
from an encoded name is the name with its dots.
-/

namespace Ecotiter
open DnsGrammar CheckedMemory

/-! ## Checked accesses -/

/-- The loop of `buildDnsResponse` over the labels. -/
def readLabels (query : Octets) (qptr : ℕ) : Option ℕ :=
  if h : qptr < query.length then do
    let len ← query[qptr]?
    if len = 0 then return qptr + 1 else readLabels query (qptr + 1 + len.toNat)
  else return qptr
termination_by query.length - qptr

/-- `buildDnsResponse` with its accesses. -/
def storeDnsResponse (query response : Octets) (answerIp : ℕ) : Option (ℕ × Octets) :=
  if query.length < DnsHeader.size then return (0, response)
  else do
    let reqHdr := DnsHeader.load (← load query 0 DnsHeader.size)
    if bswap16 reqHdr.qdcount = 0 then return (0, response)
    else
      let qptr ← readLabels query DnsHeader.size
      if query.length < qptr + 4 then return (0, response)
      else
        let questionLen := qptr - DnsHeader.size
        let totalLen := DnsHeader.size + questionLen + DnsAnswer.size
        if response.length < totalLen then return (0, response)
        else
          let response ← store response 0 (responseHeader reqHdr).octets
          let response ← store response DnsHeader.size (← load query DnsHeader.size questionLen)
          let response ← store response (DnsHeader.size + questionLen)
            (responseAnswer answerIp).octets
          return (totalLen, response)

/-- The empty string that is left for a name that is given up. -/
def noName (outBuf : Octets) : Option (ℕ × Octets) :=
  if 0 < outBuf.length then do return (0, ← store outBuf 0 [0]) else return (0, outBuf)

/-- The string behind the bytes that are written. -/
def endName (written : ℕ) (outBuf : Octets) : Option (ℕ × Octets) := do
  return (written, ← store outBuf written [0])

/-- The loop of `extractDomainName` over the labels. -/
def copyLabels (query : Octets) (qptr written : ℕ) (first : Bool) (outBuf : Octets) :
    Option (ℕ × Octets) :=
  if _h : qptr < query.length then do
    let len ← query[qptr]?
    if len = 0 then endName written outBuf
    else if query.length < qptr + 1 + len.toNat then noName outBuf
    else if first = false ∧ outBuf.length ≤ written + 1 then noName outBuf
    else
      let outBuf ← if first then some outBuf else store outBuf written [46]
      let written := if first then written else written + 1
      if outBuf.length ≤ written + len.toNat then noName outBuf
      else
        let label ← load query (qptr + 1) len.toNat
        let outBuf ← store outBuf written label
        copyLabels query (qptr + 1 + len.toNat) (written + len.toNat) false outBuf
  else endName written outBuf
termination_by query.length - qptr

def extractDomainName (query outBuf : Octets) : Option (ℕ × Octets) :=
  if query.length < DnsHeader.size ∨ outBuf.length = 0 then return (0, outBuf)
  else copyLabels query DnsHeader.size 0 true outBuf

/-! ## The response stays inside -/

section
variable {query response : Octets} {answerIp : ℕ}

theorem readLabels_eq (query : Octets) (qptr : ℕ) :
    readLabels query qptr = some (skipLabels query qptr) := by
  induction hn : query.length - qptr using Nat.strongRecOn generalizing qptr with
  | ind n ih =>
    rw [readLabels, skipLabels]
    by_cases h : qptr < query.length
    · have hget : query[qptr]? = some (query.get ⟨qptr, h⟩) := List.getElem?_eq_getElem h
      rw [dif_pos h, dif_pos h, hget]
      dsimp only [Option.bind_eq_bind, Option.bind_some]
      by_cases hzero : query.get ⟨qptr, h⟩ = 0
      · rw [if_pos hzero, if_pos hzero]
        rfl
      · rw [if_neg hzero, if_neg hzero]
        exact ih _ (by omega) _ rfl
    · rw [dif_neg h, dif_neg h]
      rfl

theorem le_skipLabels (query : Octets) (qptr : ℕ) : qptr ≤ skipLabels query qptr := by
  induction hn : query.length - qptr using Nat.strongRecOn generalizing qptr with
  | ind n ih =>
    rw [skipLabels]
    split
    · dsimp only
      split
      · omega
      · have hnext := ih _ (by omega) (qptr + 1 + (query.get ⟨qptr, by assumption⟩).toNat) rfl
        omega
    · exact Nat.le_refl _

theorem DnsHeader.octets_length (h : DnsHeader) : h.octets.length = DnsHeader.size := rfl

theorem DnsAnswer.octets_length (a : DnsAnswer) : a.octets.length = DnsAnswer.size := rfl

theorem DnsHeader.load_take (mem : Octets) :
    DnsHeader.load (mem.take DnsHeader.size) = DnsHeader.load mem := by
  have hload : ∀ i, i + 1 < DnsHeader.size → load16 (mem.take DnsHeader.size) i = load16 mem i := by
    intro i hi
    unfold load16
    rw [List.getD_eq_getElem?_getD, List.getD_eq_getElem?_getD, List.getD_eq_getElem?_getD,
      List.getD_eq_getElem?_getD, List.getElem?_take_of_lt (by omega),
      List.getElem?_take_of_lt (by omega)]
  unfold DnsHeader.load
  rw [hload 0 (by decide), hload 2 (by decide), hload 4 (by decide), hload 6 (by decide),
    hload 8 (by decide), hload 10 (by decide)]

/-- Nothing is written, or what is returned counts what is written. -/
theorem buildDnsResponse_written (query response : Octets) (answerIp : ℕ) :
    buildDnsResponse query response answerIp = (0, response) ∨
      ∃ msg : Octets, msg.length ≤ response.length ∧
        buildDnsResponse query response answerIp =
          (msg.length, msg ++ response.drop msg.length) := by
  have hle := le_skipLabels query DnsHeader.size
  unfold buildDnsResponse
  split
  · exact .inl rfl
  · dsimp only
    split
    · exact .inl rfl
    · split
      · exact .inl rfl
      · split
        · exact .inl rfl
        · next htruncated hcapacity =>
          have hlength : ((query.drop DnsHeader.size).take
              (skipLabels query DnsHeader.size - DnsHeader.size)).length =
              skipLabels query DnsHeader.size - DnsHeader.size := by
            rw [List.length_take, List.length_drop]
            omega
          have htotal : ((responseHeader (DnsHeader.load query)).octets ++
              (query.drop DnsHeader.size).take
                (skipLabels query DnsHeader.size - DnsHeader.size) ++
              (responseAnswer answerIp).octets).length =
              DnsHeader.size + (skipLabels query DnsHeader.size - DnsHeader.size) +
                DnsAnswer.size := by
            rw [List.length_append, List.length_append, hlength, DnsHeader.octets_length,
              DnsAnswer.octets_length]
          refine .inr ⟨_, Nat.not_lt.mp (htotal ▸ hcapacity), ?_⟩
          rw [htotal]

/-- The accesses all succeed, with the result of the function. -/
theorem storeDnsResponse_eq (query response : Octets) (answerIp : ℕ) :
    storeDnsResponse query response answerIp = some (buildDnsResponse query response answerIp) := by
  unfold storeDnsResponse buildDnsResponse
  by_cases hshort : query.length < DnsHeader.size
  · rw [if_pos hshort, if_pos hshort]
    rfl
  · have hheader : load query 0 DnsHeader.size = some (query.take DnsHeader.size) :=
      load_eq (by omega)
    rw [if_neg hshort, if_neg hshort, hheader]
    dsimp only [Option.bind_eq_bind, Option.bind_some]
    rw [DnsHeader.load_take]
    by_cases hnone : bswap16 (DnsHeader.load query).qdcount = 0
    · rw [if_pos hnone, if_pos hnone]
      rfl
    · rw [if_neg hnone, if_neg hnone, readLabels_eq]
      dsimp only [Option.bind_some]
      have hle := le_skipLabels query DnsHeader.size
      generalize skipLabels query DnsHeader.size = qptr at hle ⊢
      by_cases htruncated : query.length < qptr + 4
      · rw [if_pos htruncated, if_pos htruncated]
        rfl
      · rw [if_neg htruncated, if_neg htruncated]
        by_cases hcapacity :
            response.length < DnsHeader.size + (qptr - DnsHeader.size) + DnsAnswer.size
        · rw [if_pos hcapacity, if_pos hcapacity]
          rfl
        · rw [if_neg hcapacity, if_neg hcapacity]
          have hquestion : load query DnsHeader.size (qptr - DnsHeader.size) =
              some ((query.drop DnsHeader.size).take (qptr - DnsHeader.size)) :=
            load_eq (by omega)
          have hlength : ((query.drop DnsHeader.size).take (qptr - DnsHeader.size)).length =
              qptr - DnsHeader.size := by
            rw [List.length_take, List.length_drop]
            omega
          generalize (query.drop DnsHeader.size).take (qptr - DnsHeader.size) = question
            at hquestion hlength ⊢
          have hfirst : store response 0 (responseHeader (DnsHeader.load query)).octets =
              some ((responseHeader (DnsHeader.load query)).octets ++
                response.drop DnsHeader.size) :=
            store_zero _ _ (by rw [DnsHeader.octets_length]; omega)
          rw [hfirst, hquestion]
          dsimp only [Option.bind_some]
          have hsecond := store_append (responseHeader (DnsHeader.load query)).octets question
            (response.drop DnsHeader.size) (by rw [List.length_drop]; omega)
          rw [DnsHeader.octets_length] at hsecond
          rw [hsecond]
          dsimp only [Option.bind_some]
          have hthird := store_append ((responseHeader (DnsHeader.load query)).octets ++ question)
            (responseAnswer answerIp).octets ((response.drop DnsHeader.size).drop question.length)
            (by rw [DnsAnswer.octets_length, List.length_drop, List.length_drop]; omega)
          rw [List.length_append, DnsHeader.octets_length, hlength] at hthird
          rw [hlength, hthird, DnsAnswer.octets_length, List.drop_drop, List.drop_drop]
          dsimp only [Option.bind_some]
          rw [Nat.add_assoc]
          rfl

end

/-! ## The name stays inside -/

/-- What is left of a call: the number of bytes of a terminated string, or zero. -/
def NamesOrNone (outBuf : Octets) (result : Option (ℕ × Octets)) : Prop :=
  ∃ n mem, result = some (n, mem) ∧ mem.length = outBuf.length ∧
    (n = 0 ∨ ∃ name : Octets, name.length = n ∧ mem = name ++ 0 :: outBuf.drop (n + 1))

/-- The separator in front of a label. -/
def separator (first : Bool) : Octets := if first then [] else [46]

section
variable {query done rest : Octets} {qptr : ℕ} {first : Bool}

theorem noName_eq {outBuf : Octets} (h : outBuf ≠ []) :
    noName outBuf = some (0, 0 :: outBuf.drop 1) := by
  have hpos := List.length_pos_of_ne_nil h
  rw [noName, if_pos hpos, store_zero [0] outBuf hpos]
  rfl

theorem endName_eq (hrest : rest ≠ []) :
    endName done.length (done ++ rest) = some (done.length, done ++ 0 :: rest.drop 1) := by
  have hpos := List.length_pos_of_ne_nil hrest
  rw [endName, store_append done [0] rest hpos, List.append_assoc]
  rfl

theorem copyLabels_end (hrest : rest ≠ []) (h : ∀ hq : qptr < query.length, query[qptr] = 0) :
    copyLabels query qptr done.length first (done ++ rest) =
      some (done.length, done ++ 0 :: rest.drop 1) := by
  rw [copyLabels, endName_eq hrest]
  split
  · next hq =>
    rw [List.getElem?_eq_getElem hq, h hq]
    rfl
  · rfl

/-- A label that does not fit ends the call with an empty string. -/
theorem copyLabels_noRoom (done : Octets) (hrest : rest ≠ []) (hq : qptr < query.length) (hne : query[qptr] ≠ 0)
    (h : query.length < qptr + 1 + query[qptr].toNat ∨
      rest.length ≤ (separator first).length + query[qptr].toNat) :
    ∃ mem, copyLabels query qptr done.length first (done ++ rest) = some (0, mem) ∧
      mem.head? = some 0 ∧ mem.length = (done ++ rest).length := by
  have hfailed : ∀ outBuf : Octets, outBuf ≠ [] → outBuf.length = (done ++ rest).length →
      ∃ mem, noName outBuf = some (0, mem) ∧ mem.head? = some 0 ∧
        mem.length = (done ++ rest).length := by
    intro outBuf hne hlength
    have hpos := List.length_pos_of_ne_nil hne
    refine ⟨_, noName_eq hne, rfl, ?_⟩
    rw [List.length_cons, List.length_drop]
    omega
  have hbuf : done ++ rest ≠ [] := List.append_ne_nil_of_right_ne_nil done hrest
  have hlength : (done ++ rest).length = done.length + rest.length := List.length_append
  rw [copyLabels, dif_pos hq, List.getElem?_eq_getElem hq]
  dsimp only [Option.bind_eq_bind, Option.bind_some]
  rw [if_neg hne]
  by_cases hin : query.length < qptr + 1 + query[qptr].toNat
  · rw [if_pos hin]
    exact hfailed _ hbuf rfl
  · have hroom := h.resolve_left hin
    rw [if_neg hin]
    cases first with
    | true =>
      have hroom : rest.length ≤ 0 + query[qptr].toNat := hroom
      rw [if_neg (by simp)]
      simp only [if_true, Option.bind_some]
      rw [if_pos (by omega)]
      exact hfailed _ hbuf rfl
    | false =>
      have hroom : rest.length ≤ 1 + query[qptr].toNat := hroom
      by_cases hdot : (done ++ rest).length ≤ done.length + 1
      · rw [if_pos ⟨rfl, hdot⟩]
        exact hfailed _ hbuf rfl
      · have hstore := store_append done [46] rest (List.length_pos_of_ne_nil hrest)
        rw [List.length_singleton] at hstore
        have hstored : (done ++ [46] ++ rest.drop 1).length = (done ++ rest).length := by
          rw [List.length_append, List.length_append, List.length_drop, List.length_singleton]
          omega
        rw [if_neg (fun hcheck => hdot hcheck.2)]
        simp only [Bool.false_eq_true, if_false]
        rw [hstore]
        dsimp only [Option.bind_some]
        rw [if_pos (by rw [hstored]; omega)]
        exact hfailed _ (by simp) hstored

/-- A label that fits is copied behind its separator. -/
theorem copyLabels_label (done rest : Octets) (first : Bool) (hq : qptr < query.length) (hne : query[qptr] ≠ 0)
    (hin : qptr + 1 + query[qptr].toNat ≤ query.length)
    (hroom : (separator first).length + query[qptr].toNat < rest.length) :
    copyLabels query qptr done.length first (done ++ rest) =
      let name := done ++ separator first ++ (query.drop (qptr + 1)).take query[qptr].toNat
      copyLabels query (qptr + 1 + query[qptr].toNat) name.length false
        (name ++ rest.drop ((separator first).length + query[qptr].toNat)) := by
  have hlabel : load query (qptr + 1) query[qptr].toNat =
      some ((query.drop (qptr + 1)).take query[qptr].toNat) := load_eq hin
  have hlen : ((query.drop (qptr + 1)).take query[qptr].toNat).length = query[qptr].toNat := by
    rw [List.length_take, List.length_drop]
    omega
  have hpos : 0 < query[qptr].toNat := by
    rw [Nat.pos_iff_ne_zero]
    exact fun hzero => hne (UInt8.toNat_inj.mp hzero)
  have hlength : (done ++ rest).length = done.length + rest.length := List.length_append
  rw [copyLabels, dif_pos hq, List.getElem?_eq_getElem hq]
  dsimp only [Option.bind_eq_bind, Option.bind_some]
  rw [if_neg hne, if_neg (by omega)]
  generalize (query.drop (qptr + 1)).take query[qptr].toNat = label at hlabel hlen ⊢
  cases first with
  | true =>
    have hroom : 0 + query[qptr].toNat < rest.length := hroom
    have hstore := store_append done label rest (by omega)
    rw [if_neg (by simp)]
    simp only [if_true, Option.bind_some]
    rw [if_neg (by omega), hlabel]
    dsimp only [Option.bind_some]
    rw [hstore]
    dsimp only [Option.bind_some, separator]
    rw [if_pos rfl, List.append_nil, List.length_append, hlen, List.length_nil, Nat.zero_add]
  | false =>
    have hroom : 1 + query[qptr].toNat < rest.length := hroom
    have hdot := store_append done [46] rest (by rw [List.length_singleton]; omega)
    rw [List.length_singleton] at hdot
    have hstored : (done ++ [46] ++ rest.drop 1).length = done.length + rest.length := by
      rw [List.length_append, List.length_append, List.length_drop, List.length_singleton]
      omega
    have hstore := store_append (done ++ [46]) label (rest.drop 1)
      (by rw [List.length_drop]; omega)
    rw [List.length_append, List.length_singleton] at hstore
    rw [if_neg (fun hcheck => absurd hcheck.2 (by omega))]
    simp only [Bool.false_eq_true, if_false]
    rw [hdot]
    dsimp only [Option.bind_some]
    rw [if_neg (by rw [hstored]; omega), hlabel]
    dsimp only [Option.bind_some]
    rw [hstore]
    dsimp only [Option.bind_some, separator]
    simp only [Bool.false_eq_true, if_false, List.length_singleton]
    rw [List.drop_drop, hlen, List.length_append, List.length_append, List.length_singleton, hlen]

/-- The loop ends with a terminated string that goes on from what is written, or gives it up. -/
theorem copyLabels_total (query : Octets) (qptr : ℕ) (first : Bool) (done : Octets)
    (hrest : rest ≠ []) :
    ∃ n mem, copyLabels query qptr done.length first (done ++ rest) = some (n, mem) ∧
      mem.length = (done ++ rest).length ∧
      (n = 0 ∨ ∃ more : Octets, n = (done ++ more).length ∧
        mem = done ++ more ++ 0 :: rest.drop (more.length + 1)) := by
  induction hn : query.length - qptr using Nat.strongRecOn generalizing qptr done rest first with
  | ind n ih =>
    by_cases hend : ∀ hq : qptr < query.length, query[qptr] = 0
    · have hpos := List.length_pos_of_ne_nil hrest
      refine ⟨_, _, copyLabels_end hrest hend, ?_, .inr ⟨[], ?_, ?_⟩⟩
      · simp only [List.length_append, List.length_cons, List.length_drop]
        omega
      · rw [List.append_nil]
      · rw [List.append_nil]
        rfl
    · simp only [not_forall] at hend
      obtain ⟨hq, hne⟩ := hend
      by_cases hfits : query.length < qptr + 1 + query[qptr].toNat ∨
          rest.length ≤ (separator first).length + query[qptr].toNat
      · obtain ⟨mem, hmem, -, hlength⟩ := copyLabels_noRoom done hrest hq hne hfits
        exact ⟨0, mem, hmem, hlength, .inl rfl⟩
      · have hin : qptr + 1 + query[qptr].toNat ≤ query.length := by omega
        have hroom : (separator first).length + query[qptr].toNat < rest.length := by omega
        rw [copyLabels_label done rest first hq hne hin hroom]
        dsimp only
        have hlen : ((query.drop (qptr + 1)).take query[qptr].toNat).length =
            query[qptr].toNat := by
          rw [List.length_take, List.length_drop]
          omega
        generalize (query.drop (qptr + 1)).take query[qptr].toNat = label at hlen ⊢
        have hleft : rest.drop ((separator first).length + query[qptr].toNat) ≠ [] := by
          intro hnil
          have hdrop := List.drop_eq_nil_iff.mp hnil
          omega
        obtain ⟨m, mem, hmem, hlength, hname⟩ := ih _ (by omega) (qptr + 1 + query[qptr].toNat) false
          (done ++ separator first ++ label) hleft rfl
        refine ⟨m, mem, hmem, ?_, hname.imp_right ?_⟩
        · rw [hlength]
          simp only [List.length_append, List.length_drop, hlen]
          omega
        · rintro ⟨more, hm, hmem⟩
          refine ⟨separator first ++ label ++ more, ?_, ?_⟩
          · rw [hm]
            simp only [List.append_assoc]
          · rw [hmem, List.drop_drop]
            simp only [List.append_assoc, List.length_append, hlen, Nat.add_assoc]

/-! ## Extraction inverts the encoding -/

/-- Labels with a separator in front of each, but for the first one. -/
def dotted (first : Bool) : List Label → Octets
  | [] => []
  | l :: labels => separator first ++ l ++ dotted false labels

theorem dotted_eq_intercalate (labels : List Label) : dotted true labels = [46].intercalate labels := by
  have hrest : ∀ labels : List Label, ∀ l : Label,
      l ++ dotted false labels = [46].intercalate (l :: labels) := by
    intro labels
    induction labels with
    | nil =>
      intro l
      simp [dotted]
    | cons m labels ih =>
      intro l
      rw [List.intercalate_cons_cons, ← ih m]
      simp [dotted, separator]
  cases labels with
  | nil => rfl
  | cons l labels => exact hrest labels l

theorem copyLabels_encodeName {labels : List Label} (h : ∀ l ∈ labels, ValidLabel l)
    (pre post : Octets) (first : Bool) (done : Octets) {rest : Octets} (hrest : rest ≠ []) :
    ((dotted first labels).length < rest.length →
      copyLabels (pre ++ encodeName labels ++ post) pre.length done.length first (done ++ rest) =
        some ((done ++ dotted first labels).length, done ++ dotted first labels ++
          0 :: rest.drop ((dotted first labels).length + 1))) ∧
    (rest.length ≤ (dotted first labels).length → ∃ mem,
      copyLabels (pre ++ encodeName labels ++ post) pre.length done.length first (done ++ rest) =
        some (0, mem) ∧ mem.head? = some 0) := by
  induction labels generalizing pre done rest first with
  | nil =>
    have hpos := List.length_pos_of_ne_nil hrest
    have hzero : ∀ hq : pre.length < (pre ++ encodeName [] ++ post).length,
        (pre ++ encodeName [] ++ post)[pre.length] = 0 := by
      intro hq
      simp [encodeName]
    refine ⟨fun _ => ?_, fun hle => absurd hpos (Nat.not_lt.mpr hle)⟩
    rw [copyLabels_end hrest hzero, dotted, List.append_nil]
    rfl
  | cons l labels ih =>
    obtain ⟨hpos, hlen⟩ := h l List.mem_cons_self
    have hvalue : (UInt8.ofNat l.length).toNat = l.length := by
      rw [UInt8.toNat_ofNat']
      omega
    have hsplit : pre ++ encodeName (l :: labels) ++ post =
        (pre ++ UInt8.ofNat l.length :: l) ++ encodeName labels ++ post := by
      simp [encodeName]
    have hq : pre.length < (pre ++ encodeName (l :: labels) ++ post).length := by
      simp [encodeName]
    have hget : (pre ++ encodeName (l :: labels) ++ post)[pre.length] = UInt8.ofNat l.length := by
      simp [encodeName]
    have hne : (pre ++ encodeName (l :: labels) ++ post)[pre.length] ≠ 0 := by
      rw [hget]
      intro hzero
      rw [hzero] at hvalue
      change 0 = l.length at hvalue
      omega
    have hlabel : ((pre ++ encodeName (l :: labels) ++ post).drop (pre.length + 1)).take l.length =
        l := by
      simp [encodeName]
    have hin : pre.length + 1 + l.length ≤ (pre ++ encodeName (l :: labels) ++ post).length := by
      simp only [encodeName, List.length_append, List.length_cons, List.flatMap_cons]
      omega
    have hdotted : (dotted first (l :: labels)).length =
        (separator first).length + l.length + (dotted false labels).length := by
      rw [dotted, List.length_append, List.length_append]
    by_cases hroom : (separator first).length + l.length < rest.length
    · have hstep := copyLabels_label done rest first hq hne
        (by rw [hget, hvalue]; exact hin) (by rw [hget, hvalue]; exact hroom)
      dsimp only at hstep
      rw [hget, hvalue, hlabel] at hstep
      have hleft : rest.drop ((separator first).length + l.length) ≠ [] := by
        intro hnil
        have hdrop := List.drop_eq_nil_iff.mp hnil
        omega
      have hnext := ih (fun m hm => h m (.tail l hm)) (pre ++ UInt8.ofNat l.length :: l) false
        (done ++ separator first ++ l) hleft
      have hstart : (pre ++ UInt8.ofNat l.length :: l).length = pre.length + 1 + l.length := by
        rw [List.length_append, List.length_cons]
        omega
      rw [hstart, ← hsplit, List.length_drop] at hnext
      rw [hstep, hdotted]
      constructor
      · intro hfits
        rw [hnext.1 (by omega), List.drop_drop, dotted]
        simp only [List.append_assoc, Nat.add_assoc]
      · intro hover
        exact hnext.2 (by omega)
    · obtain ⟨mem, hmem, hhead, -⟩ := copyLabels_noRoom done hrest hq hne
        (.inr (by rw [hget, hvalue]; exact Nat.not_lt.mp hroom))
      refine ⟨fun hfits => ?_, fun _ => ⟨mem, hmem, hhead⟩⟩
      omega

/-! ## The two functions -/

/-- Every access of both functions is inside. What is returned is zero or counts the bytes of what is
left at the front: the response, or a terminated string. -/
theorem dns_staysInside (query response outBuf : Octets) (answerIp : ℕ) :
    (∃ n mem, storeDnsResponse query response answerIp = some (n, mem) ∧
      mem.length = response.length ∧ (n = 0 ∧ mem = response ∨
        ∃ msg : Octets, msg.length = n ∧ mem = msg ++ response.drop n)) ∧
    NamesOrNone outBuf (extractDomainName query outBuf) := by
  constructor
  · rw [storeDnsResponse_eq]
    rcases buildDnsResponse_written query response answerIp with h | ⟨msg, hle, h⟩
    · rw [h]
      exact ⟨0, response, rfl, rfl, .inl ⟨rfl, rfl⟩⟩
    · rw [h]
      refine ⟨_, _, rfl, ?_, .inr ⟨msg, rfl, rfl⟩⟩
      rw [List.length_append, List.length_drop]
      omega
  · unfold extractDomainName
    by_cases hnone : query.length < DnsHeader.size ∨ outBuf.length = 0
    · rw [if_pos hnone]
      exact ⟨0, outBuf, rfl, rfl, .inl rfl⟩
    · rw [if_neg hnone]
      have hne : outBuf ≠ [] := fun hnil => hnone (.inr (by rw [hnil]; rfl))
      obtain ⟨n, mem, hmem, hlength, hname⟩ :=
        copyLabels_total query DnsHeader.size true [] hne
      refine ⟨n, mem, hmem, hlength, hname.imp_right ?_⟩
      rintro ⟨name, rfl, rfl⟩
      exact ⟨name, rfl, rfl⟩

/-- The name is extracted if it is shorter than the buffer; a longer one leaves an empty string. -/
theorem extractDomainName_encodeName {header : Octets} (hheader : header.length = DnsHeader.size)
    {labels : List Label} (hlabels : ∀ l ∈ labels, ValidLabel l) (post : Octets) {outBuf : Octets}
    (hcap : 1 ≤ outBuf.length) :
    let name := [46].intercalate labels
    let extracted := extractDomainName (header ++ encodeName labels ++ post) outBuf
    (name.length < outBuf.length →
      extracted = some (name.length, name ++ 0 :: outBuf.drop (name.length + 1))) ∧
    (outBuf.length ≤ name.length → ∃ mem, extracted = some (0, mem) ∧ mem.head? = some 0) := by
  have hne : outBuf ≠ [] := List.ne_nil_of_length_pos hcap
  have hlong : ¬ ((header ++ encodeName labels ++ post).length < DnsHeader.size ∨
      outBuf.length = 0) := by
    rw [List.length_append, List.length_append]
    omega
  have hloop := copyLabels_encodeName hlabels header post true [] hne
  rw [dotted_eq_intercalate, hheader] at hloop
  dsimp only
  unfold extractDomainName
  rw [if_neg hlong]
  exact hloop

end

/-- A buffer with just enough room for the name and its end. -/
theorem extractDomainName_twoLabels :
    extractDomainName (List.replicate 12 0 ++ encodeName [[97], [98]] ++ []) (List.replicate 4 1) =
      some (3, [97, 46, 98, 0]) :=
  (extractDomainName_encodeName List.length_replicate
    (show ∀ l ∈ [[97], [98]], ValidLabel l by decide) [] (by decide)).1 (by decide)

end Ecotiter
