import Ecotiter.DnsGrammar

/-!
# The answers of the captive portal to DNS queries

`dns.hpp`. The structures of the source are packed and kept with the low octet first. The question
that is copied into the response stops at the end of its name, and the answer stands where the type
and the class of the question belong.
-/

namespace Ecotiter
open DnsGrammar

/-- An unsigned 16-bit value in memory. -/
def le16 (n : ℕ) : Octets := [UInt8.ofNat n, UInt8.ofNat (n / 256)]

def le32 (n : ℕ) : Octets := le16 n ++ le16 (n / 65536)

/-- The 16-bit value at a position of the memory. -/
def load16 (mem : Octets) (i : ℕ) : ℕ := (mem.getD i 0).toNat + (mem.getD (i + 1) 0).toNat * 256

/-- `__builtin_bswap16`. -/
def bswap16 (n : ℕ) : ℕ := n % 256 * 256 + n / 256 % 256

/-- `__builtin_bswap32`. -/
def bswap32 (n : ℕ) : ℕ := bswap16 n * 65536 + bswap16 (n / 65536)

structure DnsHeader where
  id : ℕ
  flags : ℕ
  qdcount : ℕ
  ancount : ℕ
  nscount : ℕ
  arcount : ℕ

namespace DnsHeader

def size : ℕ := 12

def load (mem : Octets) : DnsHeader :=
  { id := load16 mem 0, flags := load16 mem 2, qdcount := load16 mem 4, ancount := load16 mem 6
    nscount := load16 mem 8, arcount := load16 mem 10 }

def octets (h : DnsHeader) : Octets :=
  le16 h.id ++ le16 h.flags ++ le16 h.qdcount ++ le16 h.ancount ++ le16 h.nscount ++ le16 h.arcount

end DnsHeader

structure DnsAnswer where
  namePtr : ℕ
  type : ℕ
  klass : ℕ
  ttl : ℕ
  rdlength : ℕ
  rdata : ℕ

namespace DnsAnswer

def size : ℕ := 16

def octets (a : DnsAnswer) : Octets :=
  le16 a.namePtr ++ le16 a.type ++ le16 a.klass ++ le32 a.ttl ++ le16 a.rdlength ++ le32 a.rdata

end DnsAnswer

/-- Where the loop over the labels leaves `qptr`. -/
def skipLabels (query : Octets) (qptr : ℕ) : ℕ :=
  if h : qptr < query.length then
    let len := query.get ⟨qptr, h⟩
    if len = 0 then qptr + 1 else skipLabels query (qptr + 1 + len.toNat)
  else qptr
termination_by query.length - qptr

def responseHeader (reqHdr : DnsHeader) : DnsHeader :=
  { id := reqHdr.id, flags := bswap16 0x8180, qdcount := reqHdr.qdcount, ancount := bswap16 1
    nscount := 0, arcount := 0 }

def responseAnswer (answerIp : ℕ) : DnsAnswer :=
  { namePtr := bswap16 0xC00C, type := bswap16 1, klass := bswap16 1, ttl := bswap32 60
    rdlength := bswap16 4, rdata := answerIp }

/-- The length it returns and the buffer it leaves. -/
def buildDnsResponse (query response : Octets) (answerIp : ℕ) : ℕ × Octets :=
  if query.length < DnsHeader.size then (0, response)
  else
    let reqHdr := DnsHeader.load query
    if bswap16 reqHdr.qdcount = 0 then (0, response)
    else
      let qptr := skipLabels query DnsHeader.size
      if query.length < qptr + 4 then (0, response)
      else
        let questionLen := qptr - DnsHeader.size
        let totalLen := DnsHeader.size + questionLen + DnsAnswer.size
        if response.length < totalLen then (0, response)
        else
          (totalLen, (responseHeader reqHdr).octets ++
            (query.drop DnsHeader.size).take questionLen ++
            (responseAnswer answerIp).octets ++ response.drop totalLen)

/-- The octets a call leaves for the client. -/
def writtenResponse (query response : Octets) (answerIp : ℕ) : Octets :=
  let (written, buffer) := buildDnsResponse query response answerIp
  buffer.take written

/-! ## Queries and the responses they ask for -/

/-- A query with one question. -/
structure Query where
  id : ℕ
  flags : ℕ
  ancount : ℕ
  nscount : ℕ
  arcount : ℕ
  question : Question

namespace Query

def header (q : Query) : Octets :=
  encodeWord q.id ++ encodeWord q.flags ++ encodeWord 1 ++ encodeWord q.ancount ++
    encodeWord q.nscount ++ encodeWord q.arcount

def octets (q : Query) : Octets :=
  q.header ++ encodeName q.question.name ++ encodeWord q.question.qtype ++
    encodeWord q.question.qclass

structure WellFormed (q : Query) : Prop where
  id : q.id < 65536
  qtype : q.question.qtype < 65536
  qclass : q.question.qclass < 65536
  labels : ∀ l ∈ q.question.name, ValidLabel l

end Query

/-- A message answers a query with an address for the name that was asked for. -/
def Echoes (q : Query) (answerIp : ℕ) (msg : Octets) : Prop :=
  ∃ m r, Parses msg m ∧ m.id = q.id ∧ 0x8000 ≤ m.flags ∧ m.questions = [q.question] ∧
    m.answers = [r] ∧ m.authority = [] ∧ m.additional = [] ∧
    r.name = q.question.name ∧ r.type = 1 ∧ r.cls = 1 ∧ r.rdata = le32 answerIp

section
variable {q : Query} {answerIp : ℕ} {response : Octets}

theorem Query.header_length : q.header.length = DnsHeader.size := rfl

theorem skipLabels_encodeName {labels : List Label} (h : ∀ l ∈ labels, ValidLabel l)
    (pre post : Octets) : skipLabels (pre ++ encodeName labels ++ post) pre.length =
      pre.length + (encodeName labels).length := by
  induction labels generalizing pre with
  | nil =>
    rw [skipLabels, dif_pos (by simp [encodeName])]
    simp [encodeName]
  | cons l labels ih =>
    obtain ⟨hpos, hlen⟩ := h l (List.mem_cons_self ..)
    have hvalue : (UInt8.ofNat l.length).toNat = l.length := by
      rw [UInt8.toNat_ofNat']
      omega
    have hne : UInt8.ofNat l.length ≠ 0 := by
      intro hzero
      rw [hzero] at hvalue
      change 0 = l.length at hvalue
      omega
    have hsplit : pre ++ encodeName (l :: labels) ++ post =
        (pre ++ UInt8.ofNat l.length :: l) ++ encodeName labels ++ post := by
      simp [encodeName]
    have hrest := ih (fun l hl => h l (List.mem_cons_of_mem _ hl))
      (pre ++ UInt8.ofNat l.length :: l)
    rw [← hsplit] at hrest
    have hin : pre.length < (pre ++ encodeName (l :: labels) ++ post).length := by
      simp [encodeName]
    have hget : (pre ++ encodeName (l :: labels) ++ post).get ⟨pre.length, hin⟩ =
        UInt8.ofNat l.length := by
      simp [encodeName]
    have hstart : (pre ++ UInt8.ofNat l.length :: l).length = pre.length + 1 + l.length := by
      rw [List.length_append, List.length_cons]
      omega
    rw [skipLabels, dif_pos hin]
    dsimp only
    rw [hget, if_neg hne, hvalue, ← hstart, hrest]
    simp only [encodeName, List.length_append, List.length_cons, List.flatMap_cons]
    omega

theorem load16_append {n : ℕ} (pre post : Octets) :
    load16 (pre ++ encodeWord n ++ post) pre.length = bswap16 n := by
  simp [load16, encodeWord, bswap16]
  omega

theorem le16_bswap16 (n : ℕ) : le16 (bswap16 n) = encodeWord n := by
  have hhigh : (n % 256 * 256 + n / 256 % 256) / 256 = n % 256 := by omega
  have hlow : (n % 256 * 256 + n / 256 % 256) % 256 = n / 256 % 256 := by omega
  unfold le16 bswap16 encodeWord
  congr 1
  · apply UInt8.toNat_inj.mp
    simp only [UInt8.toNat_ofNat', hlow, Nat.reducePow]
  · congr 1
    apply UInt8.toNat_inj.mp
    simp only [UInt8.toNat_ofNat', hhigh, Nat.reducePow, Nat.mod_mod]

/-- What follows the name in a response. -/
def answerOctets (answerIp : ℕ) : Octets :=
  encodeWord 0xC00C ++ encodeWord 1 ++ encodeWord 1 ++ encodeWord 0 ++ encodeWord 60 ++
    encodeWord 4 ++ le32 answerIp

theorem responseAnswer_octets : (responseAnswer answerIp).octets = answerOctets answerIp := by
  have httl : le32 (bswap32 60) = encodeWord 0 ++ encodeWord 60 := by decide
  simp only [DnsAnswer.octets, responseAnswer, answerOctets, le16_bswap16, httl, List.append_assoc]

/-- The header of a response. -/
def echoHeader (q : Query) : Octets :=
  encodeWord q.id ++ encodeWord 0x8180 ++ encodeWord 1 ++ encodeWord 1 ++ encodeWord 0 ++
    encodeWord 0

theorem load_id : load16 q.octets 0 = bswap16 q.id :=
  load16_append [] (encodeWord q.flags ++ encodeWord 1 ++ encodeWord q.ancount ++
    encodeWord q.nscount ++ encodeWord q.arcount ++ encodeName q.question.name ++
    encodeWord q.question.qtype ++ encodeWord q.question.qclass)

theorem load_qdcount : load16 q.octets 4 = bswap16 1 :=
  load16_append (encodeWord q.id ++ encodeWord q.flags) (encodeWord q.ancount ++
    encodeWord q.nscount ++ encodeWord q.arcount ++ encodeName q.question.name ++
    encodeWord q.question.qtype ++ encodeWord q.question.qclass)

theorem responseHeader_octets :
    (responseHeader (.load q.octets)).octets = echoHeader q := by
  have hzero : le16 0 = encodeWord 0 := rfl
  simp only [DnsHeader.octets, responseHeader, DnsHeader.load, load_id, load_qdcount, le16_bswap16,
    hzero, echoHeader]

/-- A response has the name of the question, but not what follows it there. -/
theorem writtenResponse_eq (hq : q.WellFormed) (response : Octets) (answerIp : ℕ) :
    writtenResponse q.octets response answerIp = [] ∨
      writtenResponse q.octets response answerIp =
        echoHeader q ++ encodeName q.question.name ++ answerOctets answerIp := by
  have hoctets : q.octets = q.header ++ encodeName q.question.name ++
      (encodeWord q.question.qtype ++ encodeWord q.question.qclass) := by
    simp [Query.octets]
  have hlength : q.octets.length =
      DnsHeader.size + (encodeName q.question.name).length + 4 := by
    rw [hoctets]
    simp [encodeWord, Query.header_length, Nat.add_assoc]
  have hskip : skipLabels q.octets DnsHeader.size =
      DnsHeader.size + (encodeName q.question.name).length := by
    rw [hoctets]
    exact skipLabels_encodeName hq.labels q.header _
  have hcount : bswap16 (DnsHeader.load q.octets).qdcount = 1 := congrArg bswap16 load_qdcount
  have hquestion : (q.octets.drop DnsHeader.size).take (encodeName q.question.name).length =
      encodeName q.question.name := by
    have hheader : DnsHeader.size = q.header.length := rfl
    rw [hoctets, List.append_assoc, hheader, List.drop_left, List.take_left]
  unfold writtenResponse buildDnsResponse
  rw [if_neg (by omega)]
  dsimp only
  rw [hcount, if_neg (by decide), hskip, if_neg (by omega), Nat.add_sub_cancel_left]
  by_cases hcapacity :
      response.length < DnsHeader.size + (encodeName q.question.name).length + DnsAnswer.size
  · rw [if_pos hcapacity]
    exact .inl rfl
  · rw [if_neg hcapacity]
    refine .inr ?_
    dsimp only
    rw [hquestion, responseHeader_octets, responseAnswer_octets]
    refine List.take_left' ?_
    simp only [List.length_append]
    rfl

theorem echoHeader_length : (echoHeader q).length = 12 := rfl

/-- A name after the header of a response, and what is read after it. -/
theorem nameAt_response (hq : q.WellFormed) (tail : Octets) :
    NameAt (echoHeader q ++ encodeName q.question.name ++ tail) 12 q.question.name
      (12 + (encodeName q.question.name).length) :=
  nameAt_encodeName hq.labels (echoHeader q) tail

theorem word_response (tail : Octets) (k : ℕ) :
    word (echoHeader q ++ encodeName q.question.name ++ tail)
      (12 + (encodeName q.question.name).length + k) = word tail k := by
  have h := word_append_right (echoHeader q ++ encodeName q.question.name) tail k
  rwa [List.length_append, echoHeader_length] at h

theorem getElem_response (tail : Octets) (k : ℕ) :
    (echoHeader q ++ encodeName q.question.name ++ tail)[
      12 + (encodeName q.question.name).length + k]? = tail[k]? := by
  have hlength : (echoHeader q ++ encodeName q.question.name).length =
      12 + (encodeName q.question.name).length := by
    rw [List.length_append, echoHeader_length]
  rw [List.getElem?_append_right (by omega), hlength, Nat.add_sub_cancel_left]

/-- What stands after the name is read as a record of another type. -/
theorem type_of_answer (hq : q.WellFormed) {m : Message} {r : ResourceRecord}
    (hparses : Parses (echoHeader q ++ encodeName q.question.name ++ answerOctets answerIp) m)
    (hquestions : m.questions = [q.question]) (hanswers : m.answers = [r]) : r.type = 256 := by
  obtain ⟨i, j, k, hquestion, hanswer, -⟩ := hparses.body
  rw [hquestions] at hquestion
  rw [hanswers] at hanswer
  cases hquestion with
  | cons hx hxs =>
    cases hxs
    obtain ⟨e, hasked, -, -, rfl⟩ := hx
    obtain ⟨-, rfl⟩ := hasked.unique (nameAt_response hq _)
    cases hanswer with
    | cons hx hxs =>
      obtain ⟨e, hnamed, htype, -⟩ := hx
      obtain ⟨-, rfl⟩ := hnamed.unique (.root (getElem_response _ 4))
      have hword := word_response (q := q) (answerOctets answerIp) 5
      change word _ _ = some 256 at hword
      have hsame := hword.symm.trans htype
      exact (Option.some.inj hsame).symm

/-- The response that the query asks for: with the type and the class of the question. -/
theorem echoes_reference (hq : q.WellFormed) :
    Echoes q answerIp (echoHeader q ++ encodeName q.question.name ++
      (encodeWord q.question.qtype ++ encodeWord q.question.qclass ++ answerOctets answerIp)) := by
  generalize htail : encodeWord q.question.qtype ++ encodeWord q.question.qclass ++
    answerOctets answerIp = tail
  have hname := nameAt_response hq tail
  have hword := fun k => word_response (q := q) tail k
  have hget := fun k => getElem_response (q := q) tail k
  have hlength : (echoHeader q ++ encodeName q.question.name ++ tail).length =
      12 + (encodeName q.question.name).length + 20 := by
    rw [← htail]
    simp only [List.length_append]
    rfl
  have hid : word (echoHeader q ++ encodeName q.question.name ++ tail) 0 = some q.id := by
    have h := word_append [] (encodeWord 0x8180 ++ encodeWord 1 ++ encodeWord 1 ++ encodeWord 0 ++
      encodeWord 0 ++ encodeName q.question.name ++ tail) hq.id
    exact h
  have hqtype : word tail 0 = some q.question.qtype := by
    have h := word_append [] (encodeWord q.question.qclass ++ answerOctets answerIp) hq.qtype
    rw [← htail]
    exact h
  have hqclass : word tail 2 = some q.question.qclass := by
    have h := word_append (encodeWord q.question.qtype) (answerOctets answerIp) hq.qclass
    rw [← htail]
    exact h
  have hrdata : tail.drop 16 = le32 answerIp := by
    rw [← htail]
    rfl
  have hwords : word tail 6 = some 1 ∧ word tail 8 = some 1 ∧ word tail 10 = some 0 ∧
      word tail 12 = some 60 ∧ word tail 14 = some 4 ∧ tail[4]? = some 192 ∧
      tail[5]? = some 12 := by
    rw [← htail]
    exact ⟨rfl, rfl, rfl, rfl, rfl, rfl, rfl⟩
  obtain ⟨htype, hcls, hhigh, hlow, hrdlength, hptr, hptr'⟩ := hwords
  have hdrop : (echoHeader q ++ encodeName q.question.name ++ tail).drop
      (12 + (encodeName q.question.name).length + 16) = le32 answerIp := by
    have hstart : 12 + (encodeName q.question.name).length =
        (echoHeader q ++ encodeName q.question.name).length := by
      rw [List.length_append, echoHeader_length]
    rw [hstart, List.drop_length_add_append, hrdata]
  generalize hmsg : echoHeader q ++ encodeName q.question.name ++ tail = msg at *
  have hpointer : NameAt msg (12 + (encodeName q.question.name).length + 4) q.question.name
      (12 + (encodeName q.question.name).length + 6) := by
    refine .pointer ((hget 4).trans hptr) (by decide) ((hget 5).trans hptr') ?_ hname
    change 12 < _
    omega
  have hlong : longWord msg (12 + (encodeName q.question.name).length + 10) = some 60 := by
    unfold longWord
    rw [(hword 10).trans hhigh, Nat.add_assoc, (hword (10 + 2)).trans hlow]
    rfl
  have hquestion : QuestionAt msg 12 q.question (12 + (encodeName q.question.name).length + 4) :=
    ⟨_, hname, (hword 0).trans hqtype, (hword 2).trans hqclass, rfl⟩
  have hanswer : RecordAt msg (12 + (encodeName q.question.name).length + 4)
      ⟨q.question.name, 1, 1, 60, le32 answerIp⟩ msg.length := by
    refine ⟨_, hpointer, (hword 6).trans htype, (hword 8).trans hcls, hlong,
      (hword 14).trans hrdlength, ?_, ?_, ?_⟩
    · change _ + 4 ≤ _
      omega
    · rw [hdrop]
      rfl
    · change _ = _ + 4
      omega
  refine ⟨⟨q.id, 0x8180, [q.question], [⟨q.question.name, 1, 1, 60, le32 answerIp⟩], [], []⟩, _,
    ⟨hid, ?_, ?_, ?_, ?_, ?_, ?_⟩, rfl, Nat.le_of_ble_eq_true rfl, rfl, rfl, rfl, rfl, rfl,
      rfl, rfl, rfl⟩
  · rw [← hmsg]
    rfl
  · rw [← hmsg]
    rfl
  · rw [← hmsg]
    rfl
  · rw [← hmsg]
    rfl
  · rw [← hmsg]
    rfl
  · exact ⟨_, _, _, .cons hquestion .nil, .cons hanswer .nil, .nil, .nil⟩

/-- No response echoes its question. -/
theorem not_echoes (hq : q.WellFormed) :
    ¬ Echoes q answerIp (writtenResponse q.octets response answerIp) := by
  rintro ⟨m, r, hparses, -, -, hquestions, hanswers, -, -, -, htype, -⟩
  obtain hnone | hsome := writtenResponse_eq hq response answerIp
  · rw [hnone] at hparses
    cases hparses.id
  · rw [hsome] at hparses
    have htwo := type_of_answer hq hparses hquestions hanswers
    omega

end

/-- A query for the address of the name with one label of one octet. -/
def shortQuery : Query :=
  { id := 1, flags := 0x100, ancount := 0, nscount := 0, arcount := 0, question := ⟨[[97]], 1, 1⟩ }

theorem shortQuery_wellFormed : shortQuery.WellFormed :=
  ⟨by decide, by decide, by decide, by decide⟩

/-- A query for the root. -/
theorem not_echoes_root : ¬ Echoes { shortQuery with question := ⟨[], 1, 1⟩ } 0x0104A8C0
    (writtenResponse { shortQuery with question := ⟨[], 1, 1⟩ : Query }.octets
      (List.replicate 512 0) 0x0104A8C0) :=
  not_echoes ⟨by decide, by decide, by decide, by decide⟩

/-- A buffer of 512 octets has room for the answer to the short query. -/
theorem shortQuery_notEchoed : ¬ ∀ q : Query, q.WellFormed → ∀ answerIp response,
    q.octets.length + DnsAnswer.size ≤ response.length →
      Echoes q answerIp (writtenResponse q.octets response answerIp) := by
  intro h
  have hroom : shortQuery.octets.length + DnsAnswer.size ≤
      (List.replicate 512 (0 : UInt8)).length := by
    rw [List.length_replicate]
    decide
  obtain ⟨m, r, hparses, -, -, hquestions, hanswers, -, -, -, htype, -⟩ :=
    h shortQuery shortQuery_wellFormed 0x0104A8C0 (List.replicate 512 0) hroom
  obtain hnone | hsome :=
    writtenResponse_eq shortQuery_wellFormed (List.replicate 512 0) 0x0104A8C0
  · rw [hnone] at hparses
    cases hparses.id
  · rw [hsome] at hparses
    have hother := type_of_answer shortQuery_wellFormed hparses hquestions hanswers
    omega

end Ecotiter
