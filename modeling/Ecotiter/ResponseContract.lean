import Ecotiter.AdcSampling
import Ecotiter.ResponsesComplete

/-!
# The contract of the responses

Whatever a handler answers is printed as one complete JSON object, if the floats in it are finite,
and so are the replies to HTTP requests. The status that `handleStatusCore` puts into its buffer
lacks the braces around its members.
-/

namespace Ecotiter
open BoundedOutput JsonText Interleaving Firmware Sensors

/-! ## The buffers -/

/-- A `ResponseBuffer` that is about to be filled. -/
def filling (buf : Vector UInt8 Config.maxRspSize) : Output := { mem := buf.toList }

theorem prints_filling (buf : Vector UInt8 Config.maxRspSize) :
    Prints (filling buf) Config.maxRspSize [] 0 where
  holds := Output.holds_empty (Vector.length_toList)
  length := le_rfl

theorem IsCompact.exists_cons {t : List Char} (h : IsCompact t) :
    ∃ rest, t = '\x7b' :: rest ∧ ∀ (key : List Piece) (w : Value),
      IsCompact ('\x7b' :: '"' :: key.flatMap Piece.text ++ '"' :: ':' :: w.text ++ ',' :: rest) := by
  obtain ⟨m, ms, rfl⟩ := h
  refine ⟨_, Written.text_object_cons m ms, fun key w => ?_⟩
  apply compact_of_eq (key, w) (m :: ms)
  simp [Written.memberText]

theorem prints_printId (id : ℕ) :
    Prints (printId id) 32 ("\x7b\"id\":".toList ++ DecimalText.natural (id % 2 ^ 64) ++ [',']) 29 := by
  have hempty : Prints { mem := List.replicate 32 0 } 32 [] 0 :=
    ⟨Output.holds_empty List.length_replicate, le_rfl⟩
  have hbound : Format.bound [.text "\x7b\"id\":", .unsigned 64 id, .text ","] = 29 := by
    change Format.bound [.text "\x7b\"id\":", .unsigned 64 0, .text ","] = 29
    decide
  have hprinted := hempty.printf (f := [.text "\x7b\"id\":", .unsigned 64 id, .text ","])
    (by simp [Directive.IsFinite]) (by omega)
  have hchars : [] ++ Format.chars [.text "\x7b\"id\":", .unsigned 64 id, .text ","] =
      "\x7b\"id\":".toList ++ DecimalText.natural (id % 2 ^ 64) ++ [','] := by
    simp [Format.chars, Directive.chars]
  rw [hbound, hchars] at hprinted
  exact hprinted

theorem head_utf8_cons {c : Char} (h : IsAscii c) (t : List Char) :
    utf8 (c :: t) = c.val.toUInt8 :: utf8 t := by
  have hone : utf8 [c] = [c.val.toUInt8] := utf8_of_isAscii (by simpa using h)
  change utf8 ([c] ++ t) = _
  rw [utf8_append, hone]
  rfl

/-- The buffer holds one complete object, with the id in front of the members where that fits. -/
theorem prints_serializeToBuffer {kind : ResponseKind} (hkind : kind ≠ .noResponse) (id : ℕ)
    {body : Output} (h : PrintsObject body) (buf : Vector UInt8 Config.maxRspSize) :
    PrintsObject (serializeToBuffer kind id body (filling buf)) := by
  obtain ⟨t, n, hprints, hcompact⟩ := h
  obtain ⟨rest, ht, hwith⟩ := hcompact.exists_cons
  have hbuf := prints_filling buf
  have hsize : (filling buf).mem.length = Config.maxRspSize := hbuf.holds.size
  have hoff := hprints.holds.off
  have hle := Output.Holds.off_le hprints.holds
  have htext : body.text = utf8 t := hprints.holds.text
  have hbytes : utf8 t = 123 :: utf8 rest := by
    rw [ht]
    exact head_utf8_cons (by decide) rest
  have hpos : 0 < body.off := by
    rw [hoff, hbytes]
    exact Nat.succ_pos _
  unfold serializeToBuffer
  rw [if_neg hkind, if_pos ⟨hpos, by rwa [hsize]⟩]
  split
  · next hid =>
    have hidText := prints_printId id
    have hidOff := hidText.holds.off
    have hroom := hid.2.2
    have hrest : body.text.drop 1 = utf8 rest := by
      rw [htext, hbytes]
      rfl
    have hlength : (utf8 t).length = (utf8 rest).length + 1 := by
      rw [hbytes]
      rfl
    have hcopied := hbuf.holds.copy (s := (printId id).text) (by
      rw [hidText.holds.text, ← hidOff]
      change 0 + _ ≤ _
      omega)
    have hboth := hcopied.copy (s := body.text.drop 1) (by
      rw [hrest, hidText.holds.text, List.length_append, ← hidOff]
      change 0 + _ + _ ≤ _
      omega)
    have hinjected := hwith (plain "id") (unsignedValue 64 id)
    rw [plain_text, unsignedValue_text] at hinjected
    have hnew : utf8 [] ++ (printId id).text ++ body.text.drop 1 =
        utf8 ('\x7b' :: '"' :: "id".toList ++ '"' :: ':' :: DecimalText.natural (id % 2 ^ 64) ++
          ',' :: rest) := by
      rw [hrest, hidText.holds.text, ← utf8_append, ← utf8_append]
      congr 1
      simp
    rw [hnew] at hboth
    refine ⟨_, Config.maxRspSize, ⟨hboth.terminate, ?_⟩, hinjected⟩
    rw [← hboth.off]
    exact Output.Holds.off_le hboth
  · have hcopied := hbuf.holds.copy (s := body.text) (by
      rw [htext, ← hoff]
      change 0 + _ ≤ _
      omega)
    refine ⟨t, n, ⟨?_, hprints.length⟩, hcompact⟩
    rw [← htext]
    exact hcopied.terminate

/-! ## The status without braces -/

theorem not_parses_elements_nil {line : List Lexeme} :
    ¬ Parses Tree.builder line (.elements []) := by
  intro h
  generalize hm : Meaning.elements [] = m at h
  cases h <;> exact absurd hm (by simp)

theorem head_parses_object {line : List Lexeme} {ms : List (List Piece × Tree)}
    (h : Parses Tree.builder line (.value (.object ms))) :
    ∃ rest, line = .punct .lbrace :: rest := by
  generalize hm : Meaning.value (Tree.object ms) = m at h
  cases h with
  | emptyObject bs => exact ⟨_, rfl⟩
  | object h => exact ⟨_, rfl⟩
  | word w | number n | string s | emptyArray bs | array h => exact absurd hm (by simp [Tree.builder])
  | element _ _ _ | elements _ _ | member _ _ _ _ | members _ _ => exact absurd hm (by simp)

/-- An object begins with a blank or a brace. -/
theorem head_of_isObject {t : List Char} (h : IsObject t) : t.head? ≠ some '"' := by
  obtain ⟨line, ms, rfl, hdenotes⟩ := h
  cases hdenotes with
  | element before after hvalue =>
    obtain ⟨rest, rfl⟩ := head_parses_object hvalue
    cases before with
    | nil =>
      intro hhead
      exact absurd (Option.some.inj hhead) (by decide)
    | cons b before =>
      intro hhead
      have hb : b.char = '"' := Option.some.inj hhead
      cases b <;> exact absurd hb (by decide)
  | elements _ hrest => exact absurd hrest not_parses_elements_nil

theorem head_mem_snprintf {o : Output} {b : UInt8} (hoff : o.off = 0) (hsize : 1 < o.mem.length)
    (s : List UInt8) : (o.snprintf (b :: s)).mem.head? = some b := by
  have hroom : o.mem.length - 0 - 1 = (o.mem.length - 2) + 1 := by omega
  rw [Output.snprintf, hoff, if_pos (by omega), hroom]
  rfl

theorem head_take {mem : List UInt8} {b : UInt8} {n : ℕ} (h : mem.head? = some b) (hn : 0 < n) :
    (mem.take n).head? = some b := by
  rw [List.head?_take, if_neg (by omega), h]

theorem print_statusFormat (state : BuretteState) (volumeMl : Option ℚ) :
    ∃ t, (statusFormat state volumeMl).print = '"' :: t := by
  have hopening : "\"status\":\"".toList = '"' :: "status\":\"".toList := by decide
  have hfirst (f : Format) :
      Format.print (.text "\"status\":\"" :: f) = '"' :: ("status\":\"".toList ++ f.print) := by
    rw [Format.print, List.flatMap_cons, Directive.print, hopening]
    rfl
  cases volumeMl <;> exact ⟨_, hfirst _⟩

/-- Only a quote begins with the byte of a quote. -/
theorem eq_quote_of_head {c : Char} (h : (String.utf8EncodeChar c).head? = some 34) : c = '"' := by
  have hbits : ∀ v : BitVec 8, v ||| 0xc0#8 ≠ 34#8 ∧ v ||| 0xe0#8 ≠ 34#8 ∧ v ||| 0xf0#8 ≠ 34#8 := by
    decide
  rcases c.utf8Size_eq with hsize | hsize | hsize | hsize
  · rw [String.utf8EncodeChar_eq_singleton hsize] at h
    have hlow := Char.utf8Size_eq_one_iff.mp hsize
    have hvalue := congrArg UInt8.toNat (Option.some.inj h)
    rw [UInt32.toNat_toUInt8] at hvalue
    rw [UInt32.le_iff_toNat_le] at hlow
    apply Char.ext
    apply UInt32.toNat_inj.mp
    have hlow : c.val.toNat ≤ 127 := hlow
    have hvalue : c.val.toNat % 2 ^ 8 = 34 := hvalue
    change c.val.toNat = 34
    omega
  · rw [String.utf8EncodeChar_eq_cons_cons hsize] at h
    exact absurd (congrArg UInt8.toBitVec (Option.some.inj h)) (hbits _).1
  · rw [String.utf8EncodeChar_eq_cons_cons_cons hsize] at h
    exact absurd (congrArg UInt8.toBitVec (Option.some.inj h)) (hbits _).2.1
  · rw [String.utf8EncodeChar_eq_cons_cons_cons_cons hsize] at h
    exact absurd (congrArg UInt8.toBitVec (Option.some.inj h)) (hbits _).2.2

/-- What `handleStatusCore` leaves in the buffer begins with a quote. -/
theorem head_handleStatusCore (state : BuretteState) (volumeMl : ℚ)
    (buf : Vector UInt8 Config.maxRspSize) :
    (Rest.handleStatusCore state volumeMl (filling buf)).text.head? = some 34 := by
  have hsize : (filling buf).mem.length = Config.maxRspSize := (prints_filling buf).holds.size
  obtain ⟨t, ht⟩ := print_statusFormat state (if state = .homing then none else some volumeMl)
  have hmem := head_mem_snprintf (o := filling buf) (b := 34) rfl (by rw [hsize]; decide) (utf8 t)
  have hbytes := head_utf8_cons (c := '"') (by decide) t
  unfold Rest.handleStatusCore serializeStatusJson
  rw [if_neg (by change ¬ Config.maxRspSize ≤ 0; decide), printf, ht, hbytes]
  dsimp only
  split
  · exact head_take hmem (show 0 < Config.maxRspSize - 1 by decide)
  · exact head_take hmem (by simp [Output.snprintf])

theorem not_complete_handleStatusCore (state : BuretteState) (volumeMl : ℚ)
    (buf : Vector UInt8 Config.maxRspSize) :
    ¬ Complete (Rest.handleStatusCore state volumeMl (filling buf)) := by
  intro h
  obtain ⟨t, htext, ht⟩ := h.object
  have hhead := head_handleStatusCore state volumeMl buf
  rw [← htext] at hhead
  apply head_of_isObject ht
  cases t with
  | nil => exact absurd hhead (by simp [utf8])
  | cons c t =>
    have hquote : c = '"' := by
      apply eq_quote_of_head
      rw [utf8, List.flatMap_cons] at hhead
      cases hbytes : String.utf8EncodeChar c with
      | nil => 
        have hlength := congrArg List.length hbytes
        rw [String.length_utf8EncodeChar] at hlength
        exact absurd hlength c.utf8Size_pos.ne'
      | cons b bs => simpa [hbytes] using hhead
    rw [hquote]
    rfl

/-! ## What the handlers answer -/

/-- A response that is printed: one that has a body, and whose texts are regular. -/
def Answerable (rsp : CommandResponse) : Prop :=
  rsp.kind ≠ .noResponse ∧ (rsp.body ≠ .elsewhere → rsp.body.Regular)

theorem ResponseKind.single_ne_noResponse : ResponseKind.single ≠ .noResponse := by decide

theorem ResponseKind.error_ne_noResponse : ResponseKind.error ≠ .noResponse := by decide

/-- Every response the program can come to is answerable. -/
def AnswersWell (p : Firmware CommandResponse) : Prop := ∀ rsp, p.MayReturn rsp → Answerable rsp

section
variable {α : Type} {p : Firmware α} {f : α → Firmware CommandResponse}
  {next handler : Firmware CommandResponse} {rsp accepted : CommandResponse} {message payload : String}

theorem answersWell_pure (h : Answerable rsp) : AnswersWell (pure rsp) := by
  rintro _ rfl
  exact h

theorem answersWell_bind (h : ∀ a, AnswersWell (f a)) : AnswersWell (p >>= f) := by
  intro rsp hrsp
  obtain ⟨a, -, ha⟩ := Program.MayReturn.of_bind hrsp
  exact h a rsp ha

theorem answersWell_error (h : IsMessage message) : AnswersWell (pure (makeErrorResponse message)) :=
  answersWell_pure ⟨ResponseKind.error_ne_noResponse, fun _ => h⟩

theorem answersWell_invalidParams : AnswersWell (pure (makeErrorResponse "invalid_params")) :=
  answersWell_error (by decide)

theorem answersWell_busy : AnswersWell (pure (makeErrorResponse "busy")) :=
  answersWell_error (by decide)

theorem answersWell_buretteBusy : AnswersWell (pure (makeErrorResponse "burette_busy")) :=
  answersWell_error (by decide)

theorem answersWell_startFailed : AnswersWell (pure (makeErrorResponse "start_failed")) :=
  answersWell_error (by decide)

theorem answersWell_body {b : ResponseBody} (h : b.Regular) :
    AnswersWell (pure { body := b }) :=
  answersWell_pure ⟨ResponseKind.single_ne_noResponse, fun _ => h⟩

/-- An object with a status is a value. -/
theorem answerable_payload (status : String) (hstatus : ∀ c ∈ status.toList, IsPlain c)
    (hpayload : payload = "\x7b\"status\":\"" ++ status ++ "\"\x7d")
    (hsize : payload.utf8ByteSize ≤ 100) : Answerable (makeSingleResponse payload) := by
  refine ⟨ResponseKind.single_ne_noResponse, fun _ => ⟨⟨.object [(plain "status", stringValue status hstatus)], ?_⟩, hsize⟩⟩
  rw [hpayload]
  simp [Written.memberText]

theorem answerable_ack : Answerable makeAckThenResponse := ⟨by decide, fun _ => trivial⟩

theorem answersWell_claimBurette {state : BuretteState} (h : AnswersWell next) :
    AnswersWell (claimBurette state next) := by
  refine answersWell_bind fun settling => ?_
  split
  · exact answersWell_buretteBusy
  · refine answersWell_bind fun claimed => ?_
    split
    · exact h
    · exact answersWell_buretteBusy

theorem answersWell_enqueueClaimed {cmd : MotorCommand} (haccepted : Answerable accepted)
    (hmessage : IsMessage message) : AnswersWell (enqueueClaimed cmd accepted message) := by
  refine answersWell_bind fun sent => ?_
  split
  · exact answersWell_pure haccepted
  · refine answersWell_bind fun _ => ?_
    exact answersWell_error hmessage

theorem answersWell_enqueueOrBusy {cmd : MotorCommand} :
    AnswersWell (enqueueClaimed cmd makeAckThenResponse "busy") :=
  answersWell_enqueueClaimed answerable_ack (by decide)

theorem answersWell_applySetting {α : Type} {v : Var α} {x : α} {cmd : MotorCommand} :
    AnswersWell (BuretteOps.applySetting v x cmd) := by
  refine answersWell_bind fun settling => ?_
  split
  · exact answersWell_buretteBusy
  · refine answersWell_bind fun state => ?_
    split
    · exact answersWell_buretteBusy
    · refine answersWell_bind fun _ => answersWell_bind fun sent => ?_
      split
      · exact answersWell_pure (answerable_payload "ok" (by decide) (by decide) (by decide))
      · exact answersWell_busy

theorem answersWell_handleFill : AnswersWell BuretteOps.handleFill := by
  apply answersWell_claimBurette
  refine answersWell_bind fun cal => ?_
  cases cal with
  | none => exact answersWell_startFailed
  | some cal =>
    iterate 3 refine answersWell_bind fun _ => ?_
    exact answersWell_enqueueOrBusy

theorem answersWell_handleEmpty : AnswersWell BuretteOps.handleEmpty := by
  apply answersWell_claimBurette
  refine answersWell_bind fun cal => ?_
  cases cal with
  | none => exact answersWell_startFailed
  | some cal =>
    iterate 4 refine answersWell_bind fun _ => ?_
    exact answersWell_enqueueOrBusy

theorem answersWell_handleDoseVolume (volume speedMlMin : Option ℚ) :
    AnswersWell (BuretteOps.handleDoseVolume volume speedMlMin) := by
  cases volume with
  | none => exact answersWell_invalidParams
  | some volume =>
    apply answersWell_claimBurette
    refine answersWell_bind fun cal => ?_
    cases cal with
    | none => exact answersWell_startFailed
    | some cal =>
      refine answersWell_bind fun currentVol => ?_
      dsimp only
      split
      · exact answersWell_invalidParams
      · iterate 3 refine answersWell_bind fun _ => ?_
        exact answersWell_enqueueOrBusy

theorem answersWell_handleRinse (cycles : Option ℕ) :
    AnswersWell (BuretteOps.handleRinse cycles) := by
  rcases cycles with _ | _ | cycles
  · exact answersWell_invalidParams
  · exact answersWell_invalidParams
  · apply answersWell_claimBurette
    refine answersWell_bind fun cal => ?_
    cases cal with
    | none => exact answersWell_startFailed
    | some cal => exact answersWell_enqueueOrBusy

theorem answersWell_handleCalRun (mode : Option String) (freqHz speedMlMin : Option ℚ) :
    AnswersWell (BuretteOps.handleCalRun mode freqHz speedMlMin) := by
  cases mode with
  | none => exact answersWell_invalidParams
  | some mode =>
    refine answersWell_bind fun settling => ?_
    split
    · exact answersWell_buretteBusy
    · refine answersWell_bind fun cal => ?_
      cases cal with
      | none => exact answersWell_startFailed
      | some cal =>
        refine answersWell_bind fun state => ?_
        dsimp only
        split
        · split
          · exact answersWell_buretteBusy
          · exact answersWell_invalidParams
        · refine answersWell_bind fun claimed => ?_
          split
          · exact answersWell_enqueueOrBusy
          · exact answersWell_buretteBusy

theorem answersWell_handleStop : AnswersWell BuretteOps.handleStop := by
  refine answersWell_bind fun settling => ?_
  split
  · exact answersWell_error (by decide)
  · refine answersWell_bind fun claimed => ?_
    split
    · exact answersWell_enqueueClaimed
        (answerable_payload "stopped" (by decide) (by decide) (by decide))
        (by decide)
    · exact answersWell_buretteBusy

theorem answersWell_handleEmergencyStop : AnswersWell BuretteOps.handleEmergencyStop := by
  iterate 5 refine answersWell_bind fun _ => ?_
  split
  · exact answersWell_pure
      (answerable_payload "emergency_stopped" (by decide) (by decide) (by decide))
  · exact answersWell_busy

theorem answersWell_handleGetStatus : AnswersWell BuretteOps.handleGetStatus := by
  iterate 8 refine answersWell_bind fun _ => ?_
  exact answersWell_body trivial

theorem answersWell_handleMoveSteps (steps : Option ℤ) :
    AnswersWell (BuretteOps.handleMoveSteps steps) := by
  cases steps with
  | none => exact answersWell_invalidParams
  | some steps => exact answersWell_claimBurette answersWell_enqueueOrBusy

theorem answersWell_handleMoveContinuous (dir : Option Direction) (freqHz : Option ℕ) :
    AnswersWell (BuretteOps.handleMoveContinuous dir freqHz) := by
  rcases dir with _ | dir <;> rcases freqHz with _ | freqHz
  · exact answersWell_invalidParams
  · exact answersWell_invalidParams
  · exact answersWell_invalidParams
  · unfold BuretteOps.handleMoveContinuous
    dsimp only
    split
    · exact answersWell_invalidParams
    · exact answersWell_claimBurette answersWell_enqueueOrBusy

theorem answersWell_handleGetCalibration : AnswersWell BuretteCal.handleGetCalibration := by
  refine answersWell_bind fun cal => ?_
  cases cal with
  | none => exact answersWell_startFailed
  | some cal => exact answersWell_body trivial

theorem answersWell_handleCalcVolume (massG temperature pressure : Option ℚ) :
    AnswersWell (BuretteCal.handleCalcVolume massG temperature pressure) := by
  cases massG with
  | none => exact answersWell_invalidParams
  | some massG =>
    unfold BuretteCal.handleCalcVolume
    dsimp only
    split
    · exact answersWell_invalidParams
    · refine answersWell_bind fun cal => ?_
      cases cal with
      | none => exact answersWell_startFailed
      | some cal =>
        refine answersWell_bind fun _ => ?_
        exact answersWell_body trivial

theorem answersWell_handleCalcSpeed (measurements : List (ℚ × ℚ)) :
    AnswersWell (BuretteCal.handleCalcSpeed measurements) := by
  unfold BuretteCal.handleCalcSpeed
  split
  · exact answersWell_invalidParams
  · refine answersWell_bind fun cal => ?_
    cases cal with
    | none => exact answersWell_startFailed
    | some cal =>
      refine answersWell_bind fun _ => ?_
      exact answersWell_body trivial

theorem answersWell_handleSaveCalibration (stepsPerMl nomVolume : Option ℚ) :
    AnswersWell (BuretteCal.handleSaveCalibration stepsPerMl nomVolume) := by
  refine answersWell_bind fun pending => answersWell_bind fun written => ?_
  split
  · refine answersWell_bind fun _ => ?_
    exact answersWell_body trivial
  · exact answersWell_startFailed

theorem answersWell_handleResetCalibration : AnswersWell BuretteCal.handleResetCalibration := by
  refine answersWell_bind fun written => ?_
  split
  · exact answersWell_body trivial
  · exact answersWell_startFailed

theorem answersWell_handleRunCalibration (freqs : List ℚ) (speedMlMin : ℚ) :
    AnswersWell (BuretteCal.handleRunCalibration freqs speedMlMin) := by
  unfold BuretteCal.handleRunCalibration
  split
  · exact answersWell_invalidParams
  · apply answersWell_claimBurette
    exact answersWell_enqueueClaimed answerable_ack (by decide)

theorem answersWell_handleGetCalResult : AnswersWell BuretteCal.handleGetCalResult := by
  refine answersWell_bind fun result => ?_
  cases result with
  | none => exact answersWell_body trivial
  | some r =>
    refine answersWell_body ?_
    split <;> exact trivial

theorem answersWell_handleStallGuardGet : AnswersWell StallGuard.handleStallGuardGet := by
  iterate 2 refine answersWell_bind fun _ => ?_
  exact answersWell_body trivial

theorem answersWell_handleStallGuardSetThreshold (threshold : Option ℕ) :
    AnswersWell (StallGuard.handleStallGuardSetThreshold threshold) := by
  cases threshold with
  | none => exact answersWell_error (by decide)
  | some threshold =>
    iterate 3 refine answersWell_bind fun _ => ?_
    split
    · refine answersWell_bind fun _ => ?_
      exact answersWell_body trivial
    · exact answersWell_body trivial

theorem answersWell_handleSetPosition (pos : Option ValvePosition) :
    AnswersWell (ValveHandlers.handleSetPosition pos) := by
  cases pos with
  | none => exact answersWell_invalidParams
  | some pos =>
    refine answersWell_bind fun state => ?_
    split
    · exact answersWell_buretteBusy
    · refine answersWell_bind fun claimed => ?_
      split
      · iterate 2 refine answersWell_bind fun _ => ?_
        exact answersWell_body trivial
      · exact answersWell_buretteBusy

theorem answersWell_handleGetState : AnswersWell ValveHandlers.handleGetState := by
  refine answersWell_bind fun pos => ?_
  exact answersWell_body trivial

theorem answersWell_handledElsewhere : AnswersWell handledElsewhere := by
  refine answersWell_bind fun answered => answersWell_pure ⟨?_, fun h => absurd rfl h⟩
  cases answered <;> decide

theorem answersWell_handleSetDirection (dir : Option Direction) :
    AnswersWell (BuretteOps.handleSetDirection dir) := by
  cases dir with
  | none => exact answersWell_invalidParams
  | some dir => exact answersWell_applySetting

theorem answersWell_handleSetSpeed (speedHz : Option ℕ) :
    AnswersWell (BuretteOps.handleSetSpeed speedHz) := by
  cases speedHz with
  | none => exact answersWell_invalidParams
  | some speedHz => exact answersWell_applySetting

theorem answersWell_handleSetAccel (accelSteps : Option ℕ) :
    AnswersWell (BuretteOps.handleSetAccel accelSteps) := by
  cases accelSteps with
  | none => exact answersWell_invalidParams
  | some accelSteps => exact answersWell_applySetting

theorem answersWell_handlerOf (cmd : Command) : AnswersWell (handlerOf cmd) := by
  unfold handlerOf
  cases cmd.type with
  | fill => exact answersWell_handleFill
  | empty => exact answersWell_handleEmpty
  | doseVolume => exact answersWell_handleDoseVolume _ _
  | rinse => exact answersWell_handleRinse _
  | stop => exact answersWell_handleStop
  | moveToStop => exact answersWell_handleMoveContinuous _ _
  | emergencyStop => exact answersWell_handleEmergencyStop
  | getStatus | systemGetStatus => exact answersWell_handleGetStatus
  | moveSteps => exact answersWell_handleMoveSteps _
  | setDirection => exact answersWell_handleSetDirection _
  | setSpeed => exact answersWell_handleSetSpeed _
  | setAccel => exact answersWell_handleSetAccel _
  | calGet => exact answersWell_handleGetCalibration
  | calCalcVolume => exact answersWell_handleCalcVolume _ _ _
  | calCalcSpeed => exact answersWell_handleCalcSpeed _
  | calSave => exact answersWell_handleSaveCalibration _ _
  | calReset => exact answersWell_handleResetCalibration
  | calRun => exact answersWell_handleCalRun _ _ _
  | calGetResult => exact answersWell_handleGetCalResult
  | calRunSpeedSeq => exact answersWell_handleRunCalibration _ _
  | stallGuardGet => exact answersWell_handleStallGuardGet
  | stallGuardSetThreshold => exact answersWell_handleStallGuardSetThreshold _
  | valveSetPosition => exact answersWell_handleSetPosition _
  | valveGetState => exact answersWell_handleGetState
  | tempRead | adcCalGet | adcCalSave | adcCalMeasure | adcCalCompute | adcCalReset
  | systemGetFormattedLogs | systemReadLog | systemFirmwareVersion | serialPing =>
    exact answersWell_handledElsewhere

theorem answersWell_dispatch (cmd : Command) : AnswersWell (dispatch cmd) := by
  intro rsp hrsp
  obtain ⟨bare, hbare, hid⟩ := Program.MayReturn.of_bind hrsp
  obtain rfl : { bare with id := cmd.id } = rsp := hid
  exact answersWell_handlerOf cmd bare hbare

end

/-! ## The handlers that are modelled apart -/

/-- The commands of the ADC calibration, with the parameters `dispatch` passes. -/
def adcCommandOf (cmd : Command) : Option AdcCommand :=
  match cmd.type with
  | .adcCalGet => some .get
  | .adcCalSave => some (.save none none)
  | .adcCalMeasure => some (.measure cmd.refMv)
  | .adcCalCompute => some .compute
  | .adcCalReset => some .reset
  | _ => none

def Reply.kind : Reply → ResponseKind
  | .body (.error _) => .error
  | _ => .single

/-- What the command may be answered, with the kind of the response. -/
inductive Answers (cmd : Command) : ResponseKind → Reply → Prop
  | dispatched {rsp : CommandResponse} : (dispatch cmd).MayReturn rsp → rsp.body ≠ .elsewhere →
      Answers cmd rsp.kind (.body rsp.body)
  | adc {samples : ℕ → UInt16} {nvsA : Option UInt32} {nvsB : Option Int32} {coeffA : UInt16}
      {coeffB : Int16} {log : List (AdcCommand × Reply)} {s s' : AdcMem × ℕ} {first : ℕ}
      {adcCmd : AdcCommand} {reply : Reply} : adcCommandOf cmd = some adcCmd →
      AdcRun samples (.booted nvsA nvsB coeffA coeffB, first) log s →
      AdcStep samples s adcCmd reply s' → Answers cmd reply.kind reply
  | temperature : cmd.type = .tempRead → Answers cmd .single (.temperature 0)
  | formattedLogs : cmd.type = .systemGetFormattedLogs → Answers cmd .single .formattedLogs
  | logEntries : cmd.type = .systemReadLog → Answers cmd .single .logEntries
  | firmwareVersion : cmd.type = .systemFirmwareVersion → Answers cmd .single .firmwareVersion
  | ping : cmd.type = .serialPing → Answers cmd .single .ping

section
variable {samples : ℕ → UInt16} {s s' : AdcMem × ℕ} {m : AdcMem} {cmd : Command}
  {adcCmd : AdcCommand} {kind : ResponseKind} {reply : Reply}

theorem error_handleAdcCalSave (aX1000 : Option UInt16) (b : Option Int16) :
    (handleAdcCalSave aX1000 b).Post (.any adcMachine) ()
      (fun rsp _ => rsp.kind = .error → rsp.body = .error "failed to save ADC calibration") m := by
  simp [handleAdcCalSave, adcCalibrationWrite, adcMachine, AdcAct.run, Program.post_bind,
    makeErrorResponse]

theorem error_handleAdcCalReset :
    handleAdcCalReset.Post (.any adcMachine) ()
      (fun rsp _ => rsp.kind = .error → rsp.body = .error "failed to reset ADC calibration") m := by
  simp [handleAdcCalReset, adcCalibrationWrite, adcMachine, AdcAct.run, Program.post_bind,
    makeErrorResponse]

theorem regular_savedReply {rsp : CommandResponse} {done : Reply}
    (herror : rsp.kind = .error → rsp.body.Regular) (hdone : done.Regular) :
    (savedReply rsp done).Regular := by
  unfold savedReply
  split
  · next h => exact herror h
  · exact hdone

theorem regular_handleAdcCalMeasure (refMv : Option ℚ) (pos : ℕ) :
    (handleAdcCalMeasure refMv samples m pos).1.Regular := by
  have hreference : IsMessage "adc.cal.measure requires 'ref_mv' param" := by decide
  have hfull : IsMessage "all points collected — call adc.cal.compute or adc.cal.reset" := by
    decide
  have hunstable : IsMessage "signal not stable — check probe connection" := by decide
  unfold handleAdcCalMeasure
  split
  · exact hreference
  · split
    · exact hfull
    · split
      · exact hunstable
      · exact trivial

theorem reply_handleAdcCalCompute (m : AdcMem) :
    (handleAdcCalCompute m).1 = .error (makeErrorResponse "not enough points — need 5") ∨
      (handleAdcCalCompute m).1 = .error (makeErrorResponse "degenerate calibration points") ∨
      ∃ a b rSquared, (handleAdcCalCompute m).1 = .computed a b rSquared := by
  unfold handleAdcCalCompute
  split
  · exact .inl rfl
  · dsimp only
    split
    · exact .inr (.inl rfl)
    · exact .inr (.inr ⟨_, _, _, rfl⟩)

theorem regular_adcStep (hsize : s.1.points.length = Config.adcCalMaxPoints)
    (hstep : AdcStep samples s adcCmd reply s') : reply.Regular := by
  induction hstep with
  | get m pos =>
    have hcollected : m.collected.length ≤ m.points.length :=
      (List.length_filter_le _ _).trans (List.length_take_le' _ _)
    have hpoints : (handleAdcCalGet m).points.length = m.collected.length := List.length_map _
    change (handleAdcCalGet m).points.length ≤ 5
    rw [hpoints]
    exact hcollected.trans (le_of_eq hsize)
  | measure refMv m pos => exact regular_handleAdcCalMeasure refMv pos
  | compute m pos =>
    have hfew : IsMessage "not enough points — need 5" := by decide
    have hdegenerate : IsMessage "degenerate calibration points" := by decide
    rcases reply_handleAdcCalCompute m with h | h | ⟨a, b, rSquared, h⟩
    · rw [h]
      exact hfew
    · rw [h]
      exact hdegenerate
    · rw [h]
      exact trivial
  | save aX1000 b pos hends =>
    refine regular_savedReply (fun hkind => ?_) trivial
    have hmessage : IsMessage "failed to save ADC calibration" := by decide
    rw [error_handleAdcCalSave aX1000 b _ _ hends hkind]
    exact hmessage
  | reset pos hends =>
    refine regular_savedReply (fun hkind => ?_) trivial
    have hmessage : IsMessage "failed to reset ADC calibration" := by decide
    rw [error_handleAdcCalReset _ _ hends hkind]
    exact hmessage

theorem Answers.printable (h : Answers cmd kind reply) : kind ≠ .noResponse ∧ reply.Regular := by
  cases h with
  | dispatched hrsp hbody =>
    obtain ⟨hkind, hregular⟩ := answersWell_dispatch cmd _ hrsp
    exact ⟨hkind, hregular hbody⟩
  | adc _ hrun hstep =>
    have hsize := (collects_booted hrun).size
    refine ⟨?_, regular_adcStep hsize hstep⟩
    unfold Reply.kind
    split <;> decide
  | temperature _ => exact ⟨by decide, trivial⟩
  | formattedLogs _ => exact ⟨by decide, trivial⟩
  | logEntries _ => exact ⟨by decide, trivial⟩
  | firmwareVersion _ => exact ⟨by decide, trivial⟩
  | ping _ => exact ⟨by decide, trivial⟩

end

/-! ## All responses -/

theorem complete_printf_constant {f : Format} (hf : ∀ c ∈ f, c.IsFinite)
    (hbound : f.bound < Config.maxRspSize) (hcompact : IsCompact f.chars)
    (buf : Vector UInt8 Config.maxRspSize) : Complete (printf f (filling buf)) := by
  have hprinted := (prints_filling buf).printf hf (by omega)
  exact hprinted.complete hcompact.isObject

theorem complete_handlePingCore (buf : Vector UInt8 Config.maxRspSize) :
    Complete (Rest.handlePingCore (filling buf)) := by
  refine complete_printf_constant (by simp [Directive.IsFinite]) (by decide) ?_ buf
  apply compact_of_eq (plain "status", stringValue "ok") []
  simp [Format.chars, Directive.chars, Written.memberText]

theorem complete_invalidParams (buf : Vector UInt8 Config.maxRspSize) :
    Complete (Rest.handleCommandCore none (filling buf)) := by
  refine complete_printf_constant (by simp [Directive.IsFinite]) (by decide) ?_ buf
  apply compact_of_eq (plain "status", stringValue "error")
    [(plain "message", stringValue "invalid_params")]
  simp [Format.chars, Directive.chars, Written.memberText]

end Ecotiter
