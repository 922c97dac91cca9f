import Mathlib.Data.Int.Notation
import Mathlib.Data.List.Nodup
import Mathlib.Data.List.Perm.Basic
import Mathlib.Tactic.Common

/-!
# WebSocket sessions

The session table of `http_server.cpp`. `ws_handler` tracks a descriptor from its first frame on, and a
broadcast goes to the descriptors of the table.
-/

namespace Ecotiter
namespace HttpServer

def wsMaxSessions : ℕ := 4

def wsFdInvalid : ℤ := -1

/-- A loop over the sessions that changes the first one with a property and returns. -/
def setFirst (p : ℤ → Bool) (x : ℤ) : List ℤ → List ℤ
  | [] => []
  | s :: sessions => if p s then x :: sessions else s :: setFirst p x sessions

theorem length_setFirst (p : ℤ → Bool) (x : ℤ) (sessions : List ℤ) :
    (setFirst p x sessions).length = sessions.length := by
  induction sessions with
  | nil => rfl
  | cons s sessions ih =>
    unfold setFirst
    split
    · rfl
    · exact congrArg (· + 1) ih

def isValid (fd : ℤ) : Bool := 0 ≤ fd

theorem isValid_iff {fd : ℤ} : isValid fd = true ↔ 0 ≤ fd := decide_eq_true_iff

/-- The descriptors of the sessions. -/
structure Sessions where
  fds : List ℤ
  length_eq : fds.length = wsMaxSessions

/-- What the server library says about a descriptor. -/
inductive ClientInfo
  | invalid | http | websocket
  deriving DecidableEq

/-- What a broadcast meets at a descriptor: what the descriptor is, whether the frame could be sent,
and, if not, what the descriptor is then. -/
structure FdStatus where
  info : ClientInfo
  sendOk : Bool
  checkInfo : ClientInfo

/-- What `httpd_ws_recv_frame` does: a frame to close, another frame, or an error. -/
inductive Received
  | data | close | invalidSize | failed
  deriving DecidableEq

/-- A call of `ws_handler`; a request with the method `HTTP_GET` has no frame. -/
structure WsRequest where
  fd : ℤ
  userCtx : Bool
  frame : Option Received

namespace Sessions

def initial : Sessions := ⟨List.replicate wsMaxSessions wsFdInvalid, List.length_replicate⟩

def findSession (fd : ℤ) (s : Sessions) : Bool := s.fds.any (· = fd)

def addSession (fd : ℤ) (s : Sessions) : Sessions :=
  ⟨setFirst (· < 0) fd s.fds, (length_setFirst _ _ _).trans s.length_eq⟩

def removeSession (fd : ℤ) (s : Sessions) : Sessions :=
  ⟨setFirst (· = fd) wsFdInvalid s.fds, (length_setFirst _ _ _).trans s.length_eq⟩

def removeWsSession (req : WsRequest) (s : Sessions) : Sessions :=
  if 0 ≤ req.fd ∧ req.userCtx then s.removeSession req.fd else s

/-- The table of `ws_handler` before it reads a frame. -/
def tracking (req : WsRequest) (s : Sessions) : Sessions :=
  if 0 ≤ req.fd ∧ req.userCtx then
    if s.findSession req.fd then s else s.addSession req.fd
  else s

def wsHandler (req : WsRequest) (s : Sessions) : Sessions :=
  match req.frame with
  | none | some .data | some .invalidSize => s.tracking req
  | some .close | some .failed => (s.tracking req).removeWsSession req

/-- One turn of the loop over the sessions: what becomes of the session, and whether the frame was
sent to it. -/
def visitSession (status : ℤ → FdStatus) (fd : ℤ) : ℤ × Bool :=
  if fd < 0 then (fd, false)
  else
    match (status fd).info with
    | .invalid => (wsFdInvalid, false)
    | .http => (fd, false)
    | .websocket =>
      if (status fd).sendOk = false ∧ (status fd).checkInfo = .invalid then (wsFdInvalid, true)
      else (fd, true)

/-- The table after a broadcast, and the descriptors it was sent to. A null pointer is no data. -/
def broadcastWsEvent (handle : Bool) (jsonData : Option (List UInt8)) (status : ℤ → FdStatus)
    (s : Sessions) : Sessions × List ℤ :=
  if handle = false ∨ jsonData.getD [] = [] then (s, [])
  else if s.fds.all (· < 0) then (s, [])
  else
    (⟨s.fds.map fun fd => (visitSession status fd).1, by rw [List.length_map, s.length_eq]⟩,
      s.fds.filter fun fd => (visitSession status fd).2)

/-- The descriptors that stand for a client. -/
def valid (s : Sessions) : List ℤ := s.fds.filter isValid

end Sessions

/-! ## Runs -/

/-- What can happen to the table. -/
inductive SessionStep
  | wsHandler (req : WsRequest)
  | addSession (fd : ℤ)
  | removeSession (fd : ℤ)
  | broadcast (handle : Bool) (jsonData : Option (List UInt8)) (status : ℤ → FdStatus)

/-- The table, and the clients that count on a broadcast: a frame of theirs was handled, and since
then they were neither closed, nor did they fail, nor were they reported invalid. -/
structure Clients where
  sessions : Sessions
  tracked : List ℤ

/-- A broadcast finds that the descriptor is no client any more. -/
def FdStatus.reportsInvalid (s : FdStatus) : Bool :=
  s.info = .invalid || (s.info = .websocket && !s.sendOk && s.checkInfo = .invalid)

namespace Clients

def initial : Clients := ⟨Sessions.initial, []⟩

/-- The clients that count on a broadcast after a step. -/
def track (tracked : List ℤ) : SessionStep → List ℤ
  | .wsHandler req =>
    match req.frame with
    | none => tracked
    | some .data => if 0 ≤ req.fd then req.fd :: tracked else tracked
    | some _ => tracked.filter (· ≠ req.fd)
  | .addSession _ => tracked
  | .removeSession fd => tracked.filter (· ≠ fd)
  | .broadcast _ _ status => tracked.filter fun fd => !(status fd).reportsInvalid

def after (c : Clients) (step : SessionStep) : Clients where
  sessions :=
    match step with
    | .wsHandler req => c.sessions.wsHandler req
    | .addSession fd => c.sessions.addSession fd
    | .removeSession fd => c.sessions.removeSession fd
    | .broadcast handle jsonData status =>
      (c.sessions.broadcastWsEvent handle jsonData status).1
  tracked := track c.tracked step

/-- The descriptors that a step sends a frame to. -/
def sentBy (c : Clients) : SessionStep → List ℤ
  | .broadcast handle jsonData status => (c.sessions.broadcastWsEvent handle jsonData status).2
  | _ => []

/-- No client stands twice in the table, and every client that counts on a broadcast stands there and
is sent it. -/
structure Served (c : Clients) (step : SessionStep) : Prop where
  distinct : (c.after step).sessions.valid.Nodup
  present : ∀ fd ∈ (c.after step).tracked, fd ∈ (c.after step).sessions.valid
  sent : ∀ handle jsonData status, step = .broadcast handle jsonData status →
    ∀ fd ∈ (c.after step).tracked, fd ∈ c.sentBy step

/-- A client comes into the table by its first frame and finds a place there, and a broadcast has
something to send and finds no client that is none of the sockets. -/
def Meets (c : Clients) : SessionStep → Prop
  | .wsHandler req =>
    req.frame = some .data → 0 ≤ req.fd →
      req.fd ∈ c.sessions.fds ∨ (req.userCtx = true ∧ ∃ fd ∈ c.sessions.fds, fd < 0)
  | .addSession fd => 0 ≤ fd → fd ∉ c.sessions.fds
  | .removeSession _ => True
  | .broadcast handle jsonData status =>
    ∀ fd ∈ c.tracked, handle = true ∧ jsonData.getD [] ≠ [] ∧ (status fd).info ≠ .http

/-- Something holds at each step of a run. -/
def Along (P : Clients → SessionStep → Prop) : Clients → List SessionStep → Prop
  | _, [] => True
  | c, step :: steps => P c step ∧ Along P (c.after step) steps

end Clients

/-! ## One step -/

variable {fd x : ℤ} {l : List ℤ} {p : ℤ → Bool} {s : Sessions} {c : Clients} {step : SessionStep}

/-- The other sessions are kept. -/
theorem mem_setFirst_of_mem (h : fd ∈ l) (hp : p fd = false) : fd ∈ setFirst p x l := by
  induction l with
  | nil => exact absurd h List.not_mem_nil
  | cons s l ih =>
    unfold setFirst
    split
    · next hs =>
      rcases List.mem_cons.mp h with rfl | hl
      · exact absurd hs (by simp [hp])
      · exact List.mem_cons_of_mem x hl
    · rcases List.mem_cons.mp h with rfl | hl
      · exact List.mem_cons_self
      · exact List.mem_cons_of_mem s (ih hl)

/-- A session that is freed is no client any more. -/
theorem filter_setFirst_sublist (hx : x < 0) :
    ((setFirst p x l).filter isValid).Sublist (l.filter isValid) := by
  have hgone : ¬ isValid x = true := by
    rw [isValid_iff]
    exact Int.not_le.mpr hx
  induction l with
  | nil => exact List.Sublist.refl _
  | cons s l ih =>
    unfold setFirst
    split
    · rw [List.filter_cons_of_neg hgone]
      exact (List.sublist_cons_self s l).filter _
    · rw [List.filter_cons, List.filter_cons]
      split
      · exact ih.cons_cons s
      · exact ih

/-- A free session is given to a client. -/
theorem filter_setFirst_perm (hfd : 0 ≤ fd) (h : ∃ s ∈ l, s < 0) :
    ((setFirst (· < 0) fd l).filter isValid).Perm (fd :: l.filter isValid) := by
  induction l with
  | nil =>
    obtain ⟨s, hs, -⟩ := h
    exact absurd hs List.not_mem_nil
  | cons s l ih =>
    unfold setFirst
    by_cases hs : s < 0
    · have hfree : ¬ isValid s = true := by
        rw [isValid_iff]
        exact Int.not_le.mpr hs
      rw [if_pos (decide_eq_true hs), List.filter_cons_of_neg hfree,
        List.filter_cons_of_pos (isValid_iff.mpr hfd)]
    · have hkept : isValid s = true := isValid_iff.mpr (Int.not_lt.mp hs)
      have hrest : ∃ s ∈ l, s < 0 := by
        obtain ⟨s', hs', hneg⟩ := h
        rcases List.mem_cons.mp hs' with rfl | hl
        · exact absurd hneg hs
        · exact ⟨s', hl, hneg⟩
      rw [if_neg (by simpa using hs), List.filter_cons_of_pos hkept,
        List.filter_cons_of_pos hkept]
      exact ((ih hrest).cons s).trans (List.Perm.swap fd s _)

theorem setFirst_eq_self (h : ∀ s ∈ l, p s = false) : setFirst p x l = l := by
  induction l with
  | nil => rfl
  | cons s l ih =>
    rw [setFirst, h s List.mem_cons_self]
    exact congrArg (s :: ·) (ih fun s' hs' => h s' (List.mem_cons_of_mem s hs'))

theorem mem_valid_setFirst (h : fd ∈ l.filter isValid) (hp : p fd = false) :
    fd ∈ (setFirst p x l).filter isValid := by
  rw [List.mem_filter] at h ⊢
  exact ⟨mem_setFirst_of_mem h.1 hp, h.2⟩

namespace Sessions

theorem mem_valid {fd : ℤ} {s : Sessions} : fd ∈ s.valid ↔ fd ∈ s.fds ∧ 0 ≤ fd := by
  rw [valid, List.mem_filter, isValid_iff]

theorem nodup_addSession (h : s.valid.Nodup) (hnew : 0 ≤ fd → fd ∉ s.fds) :
    (s.addSession fd).valid.Nodup := by
  by_cases hfd : 0 ≤ fd
  · by_cases hfree : ∃ s' ∈ s.fds, s' < 0
    · have hperm := filter_setFirst_perm hfd hfree
      have habsent : fd ∉ s.valid := fun hmem => hnew hfd (mem_valid.mp hmem).1
      exact hperm.nodup_iff.mpr (List.nodup_cons.mpr ⟨habsent, h⟩)
    · have hfull : ∀ s' ∈ s.fds, decide (s' < 0) = false := fun s' hs' =>
        decide_eq_false fun hneg => hfree ⟨s', hs', hneg⟩
      rw [addSession, valid]
      dsimp only
      rw [setFirst_eq_self hfull]
      exact h
  · exact h.sublist (filter_setFirst_sublist (Int.not_le.mp hfd))

theorem mem_addSession (h : fd ∈ s.valid) (fd' : ℤ) : fd ∈ (s.addSession fd').valid :=
  mem_valid_setFirst h (decide_eq_false (Int.not_lt.mpr (mem_valid.mp h).2))

theorem mem_addSession_self (hfd : 0 ≤ fd) (hfree : ∃ s' ∈ s.fds, s' < 0) :
    fd ∈ (s.addSession fd).valid :=
  (filter_setFirst_perm hfd hfree).mem_iff.mpr List.mem_cons_self

theorem nodup_removeSession (h : s.valid.Nodup) (fd : ℤ) : (s.removeSession fd).valid.Nodup :=
  h.sublist (filter_setFirst_sublist (by decide))

theorem mem_removeSession {fd' : ℤ} (h : fd ∈ s.valid) (hne : fd ≠ fd') :
    fd ∈ (s.removeSession fd').valid := mem_valid_setFirst h (decide_eq_false hne)

theorem nodup_removeWsSession (h : s.valid.Nodup) (req : WsRequest) :
    (s.removeWsSession req).valid.Nodup := by
  unfold removeWsSession
  split
  · exact nodup_removeSession h req.fd
  · exact h

theorem mem_removeWsSession {req : WsRequest} (h : fd ∈ s.valid) (hne : fd ≠ req.fd) :
    fd ∈ (s.removeWsSession req).valid := by
  unfold removeWsSession
  split
  · exact mem_removeSession h hne
  · exact h

theorem findSession_iff : s.findSession fd = true ↔ fd ∈ s.fds := by
  simp [findSession]

theorem nodup_tracking (h : s.valid.Nodup) (req : WsRequest) : (s.tracking req).valid.Nodup := by
  unfold tracking
  split
  · split
    · exact h
    · next hfind => exact nodup_addSession h fun _ hmem => hfind (findSession_iff.mpr hmem)
  · exact h

theorem mem_tracking (h : fd ∈ s.valid) (req : WsRequest) : fd ∈ (s.tracking req).valid := by
  unfold tracking
  split
  · split
    · exact h
    · exact mem_addSession h req.fd
  · exact h

theorem mem_tracking_self {req : WsRequest} (hfd : 0 ≤ req.fd)
    (hplace : req.fd ∈ s.fds ∨ (req.userCtx = true ∧ ∃ s' ∈ s.fds, s' < 0)) :
    req.fd ∈ (s.tracking req).valid := by
  by_cases hmem : req.fd ∈ s.fds
  · exact mem_tracking (mem_valid.mpr ⟨hmem, hfd⟩) req
  · obtain ⟨hctx, hfree⟩ := hplace.resolve_left hmem
    have hfind : ¬ s.findSession req.fd = true := fun hfind => hmem (findSession_iff.mp hfind)
    rw [tracking, if_pos ⟨hfd, hctx⟩, if_neg hfind]
    exact mem_addSession_self hfd hfree

/-! ## Broadcasts -/

theorem visitSession_fst (status : ℤ → FdStatus) (fd : ℤ) :
    (visitSession status fd).1 = fd ∨ (visitSession status fd).1 = wsFdInvalid := by
  unfold visitSession
  split
  · exact .inl rfl
  · split
    · exact .inr rfl
    · exact .inl rfl
    · split
      · exact .inr rfl
      · exact .inl rfl

theorem filter_visits_sublist (status : ℤ → FdStatus) (l : List ℤ) :
    ((l.map fun fd => (visitSession status fd).1).filter isValid).Sublist (l.filter isValid) := by
  induction l with
  | nil => exact List.Sublist.refl _
  | cons fd l ih =>
    rw [List.map_cons]
    rcases visitSession_fst status fd with hsame | hgone
    · rw [hsame, List.filter_cons, List.filter_cons]
      split
      · exact ih.cons_cons fd
      · exact ih
    · rw [hgone, List.filter_cons_of_neg (by decide)]
      exact ih.trans ((List.sublist_cons_self fd l).filter _)

theorem nodup_broadcast (h : s.valid.Nodup) (handle : Bool) (jsonData : Option (List UInt8))
    (status : ℤ → FdStatus) : (s.broadcastWsEvent handle jsonData status).1.valid.Nodup := by
  unfold broadcastWsEvent
  split
  · exact h
  · split
    · exact h
    · exact h.sublist (filter_visits_sublist status s.fds)

/-- A client that is no plain HTTP client is sent a broadcast and kept, unless it is reported
invalid. -/
theorem visitSession_eq {status : ℤ → FdStatus} (hfd : 0 ≤ fd) (hhttp : (status fd).info ≠ .http)
    (hinvalid : (status fd).reportsInvalid = false) : visitSession status fd = (fd, true) := by
  rw [visitSession, if_neg (Int.not_lt.mpr hfd)]
  unfold FdStatus.reportsInvalid at hinvalid
  cases hinfo : (status fd).info with
  | invalid => simp [hinfo] at hinvalid
  | http => exact absurd hinfo hhttp
  | websocket =>
    simp only [hinfo] at hinvalid ⊢
    rw [if_neg]
    rintro ⟨hsend, hcheck⟩
    simp [hsend, hcheck] at hinvalid

theorem mem_broadcast {handle : Bool} {jsonData : Option (List UInt8)} {status : ℤ → FdStatus}
    (hmem : fd ∈ s.valid) (hhandle : handle = true) (hdata : jsonData.getD [] ≠ [])
    (hhttp : (status fd).info ≠ .http) (hinvalid : (status fd).reportsInvalid = false) :
    fd ∈ (s.broadcastWsEvent handle jsonData status).1.valid ∧
      fd ∈ (s.broadcastWsEvent handle jsonData status).2 := by
  obtain ⟨hfds, hfd⟩ := mem_valid.mp hmem
  have hvisit := visitSession_eq hfd hhttp hinvalid
  have hready : ¬ (handle = false ∨ jsonData.getD [] = []) := by
    rintro (hnone | hnone)
    · rw [hhandle] at hnone
      cases hnone
    · exact hdata hnone
  have hany : ¬ s.fds.all (· < 0) = true := by
    rw [List.all_eq_true]
    intro hall
    exact absurd (of_decide_eq_true (hall fd hfds)) (Int.not_lt.mpr hfd)
  rw [broadcastWsEvent, if_neg hready, if_neg hany]
  constructor
  · rw [mem_valid]
    refine ⟨List.mem_map.mpr ⟨fd, hfds, ?_⟩, hfd⟩
    rw [hvisit]
  · rw [List.mem_filter]
    refine ⟨hfds, ?_⟩
    rw [hvisit]

end Sessions

/-! ## Every run -/

namespace Clients

structure Sound (c : Clients) : Prop where
  distinct : c.sessions.valid.Nodup
  present : ∀ fd ∈ c.tracked, fd ∈ c.sessions.valid

theorem sound_initial : Sound initial := ⟨by decide, fun _ hfd => absurd hfd List.not_mem_nil⟩

theorem Served.sound (h : Served c step) : Sound (c.after step) := ⟨h.distinct, h.present⟩

open Sessions in
theorem Sound.wsHandler {req : WsRequest} (h : Sound c) (hmeets : Meets c (.wsHandler req)) :
    Sound (c.after (.wsHandler req)) := by
  obtain ⟨fd, userCtx, frame⟩ := req
  have hnodup := nodup_tracking h.distinct ⟨fd, userCtx, frame⟩
  have hkept : ∀ fd' ∈ c.tracked, fd' ∈ (c.sessions.tracking ⟨fd, userCtx, frame⟩).valid :=
    fun fd' hfd' => mem_tracking (h.present fd' hfd') _
  have hclosed : ∀ fd' ∈ c.tracked.filter (· ≠ fd), fd' ∈ c.tracked ∧ fd' ≠ fd := by
    intro fd' hfd'
    rw [List.mem_filter] at hfd'
    exact ⟨hfd'.1, of_decide_eq_true hfd'.2⟩
  cases frame with
  | none => exact ⟨hnodup, hkept⟩
  | some received =>
    cases received with
    | data =>
      refine ⟨hnodup, ?_⟩
      intro fd' hfd'
      have htracked : fd' ∈ if 0 ≤ fd then fd :: c.tracked else c.tracked := hfd'
      by_cases hvalid : 0 ≤ fd
      · rw [if_pos hvalid] at htracked
        rcases List.mem_cons.mp htracked with rfl | hold
        · exact mem_tracking_self hvalid (hmeets rfl hvalid)
        · exact hkept fd' hold
      · rw [if_neg hvalid] at htracked
        exact hkept fd' htracked
    | invalidSize => exact ⟨hnodup, fun fd' hfd' => hkept fd' (hclosed fd' hfd').1⟩
    | close =>
      refine ⟨nodup_removeWsSession hnodup _, ?_⟩
      intro fd' hfd'
      obtain ⟨hold, hne⟩ := hclosed fd' hfd'
      exact mem_removeWsSession (hkept fd' hold) hne
    | failed =>
      refine ⟨nodup_removeWsSession hnodup _, ?_⟩
      intro fd' hfd'
      obtain ⟨hold, hne⟩ := hclosed fd' hfd'
      exact mem_removeWsSession (hkept fd' hold) hne

open Sessions in
theorem Sound.served (h : Sound c) (hmeets : Meets c step) : Served c step := by
  have hquiet : Sound (c.after step) → (∀ handle jsonData status,
      step ≠ .broadcast handle jsonData status) → Served c step := fun hafter hother =>
    ⟨hafter.distinct, hafter.present, fun handle jsonData status hstep =>
      absurd hstep (hother handle jsonData status)⟩
  cases step with
  | wsHandler req => exact hquiet (h.wsHandler hmeets) (by simp)
  | addSession fd =>
    have hafter : Sound (c.after (.addSession fd)) :=
      ⟨nodup_addSession h.distinct hmeets, fun fd' hfd' => mem_addSession (h.present fd' hfd') fd⟩
    exact hquiet hafter (by simp)
  | removeSession fd =>
    refine hquiet ⟨nodup_removeSession h.distinct fd, ?_⟩ (by simp)
    intro fd' hfd'
    have htracked : fd' ∈ c.tracked.filter (· ≠ fd) := hfd'
    rw [List.mem_filter] at htracked
    exact mem_removeSession (h.present fd' htracked.1) (of_decide_eq_true htracked.2)
  | broadcast handle jsonData status =>
    have hsent : ∀ fd ∈ (c.after (.broadcast handle jsonData status)).tracked,
        fd ∈ (c.sessions.broadcastWsEvent handle jsonData status).1.valid ∧
          fd ∈ (c.sessions.broadcastWsEvent handle jsonData status).2 := by
      intro fd hfd
      have htracked : fd ∈ c.tracked.filter fun fd => !(status fd).reportsInvalid := hfd
      rw [List.mem_filter] at htracked
      obtain ⟨hold, hinvalid⟩ := htracked
      obtain ⟨hhandle, hdata, hhttp⟩ := hmeets fd hold
      exact mem_broadcast (h.present fd hold) hhandle hdata hhttp (by simpa using hinvalid)
    exact ⟨nodup_broadcast h.distinct handle jsonData status, fun fd hfd => (hsent fd hfd).1,
      fun _ _ _ _ fd hfd => (hsent fd hfd).2⟩

theorem Sound.along (h : Sound c) {steps : List SessionStep} (hmeets : Along Meets c steps) :
    Along Served c steps := by
  induction steps generalizing c with
  | nil => trivial
  | cons step steps ih =>
    have hserved := h.served hmeets.1
    exact ⟨hserved, ih hserved.sound hmeets.2⟩

theorem sessions_served (steps : List SessionStep) (hmeets : Along Meets initial steps) :
    Along Served initial steps := sound_initial.along hmeets

/-- A client that stays a WebSocket. -/
def connected : FdStatus := ⟨.websocket, true, .websocket⟩

theorem sessions_served_two :
    Along Served initial
      [.wsHandler ⟨60, true, some .data⟩, .broadcast true (some [123, 125]) fun _ => connected] :=
  sessions_served _ ⟨fun _ _ => .inr ⟨rfl, wsFdInvalid, by decide, by decide⟩,
    fun _ _ => ⟨rfl, by decide, (by decide : connected.info ≠ .http)⟩, trivial⟩

/-- The frames of five clients. -/
def fiveFrames : List SessionStep :=
  [60, 61, 62, 63, 64].map fun fd => .wsHandler ⟨fd, true, some .data⟩

/-- The fifth client does not come into the table and is not sent a broadcast. -/
theorem sessions_full :
    64 ∈ (fiveFrames.foldl after initial).tracked ∧
      (fiveFrames.foldl after initial).sentBy
        (.broadcast true (some [123, 125]) fun _ => connected) = [60, 61, 62, 63] ∧
      ¬ Along Served initial fiveFrames := by
  refine ⟨by decide, by decide, fun h => ?_⟩
  have hpresent := h.2.2.2.2.1.present 64 (by decide)
  exact absurd hpresent (by decide)

end Clients
end HttpServer
end Ecotiter
