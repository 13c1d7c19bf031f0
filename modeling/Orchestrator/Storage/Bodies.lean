import Orchestrator.Ipc.Events
import Orchestrator.Events.Held

/-!
# Bodies of reports

A report is charged when it is committed. A question that has no session yet is charged for one
in advance, since its body is written again, and not counted again, when the session is known.
-/
namespace Orchestrator.Store
open Library Ipc

/-- The store over the encoder of the standard library. -/
def DB.marshals (d : DB) : DB :=
  { d with encodedLen := fun e => Json.bytes (marshalEvent e) }

/-- The bytes of an event and of the artifact that it names. -/
def Platform.occupiedBytes (p : Platform) (e : Event) : Int :=
  p.encodedLen e + (e.artifact.map (·.size)).getD 0

/-- Bytes charged in advance for a session. -/
def sessionReserve : Int := 4096

/-- A report is charged for what it occupies, and for a session that it waits for. -/
structure BodyCovered (p : Platform) (r : ReportEvent) : Prop where
  body : p.occupiedBytes r.body ≤ r.accountedBytes
  held : r.deliveryStatus = .pendingSession →
    p.occupiedBytes r.body + sessionReserve ≤ r.accountedBytes

/-- Writing an event again under a session takes at most the reserve. -/
def Platform.SessionFits (p : Platform) : Prop :=
  ∀ (e : Event) (sessionKind sessionId : String), sessionKind.utf8ByteSize ≤ 64 →
    sessionId.utf8ByteSize ≤ 512 →
    p.occupiedBytes { e with sessionKind := sessionKind, sessionId := sessionId } ≤
      p.occupiedBytes e + sessionReserve

section BodyCovered
variable {d : DB} {env : Env} {s s' : State} {op : Op} {e : Event} {r r' : ReportEvent}
  {kind : ReportKind} {spec : ReportEventSpec} {payloadHash sessionKind sessionId : String}

/-- Every byte of both names may become six. -/
theorem marshals_sessionFits : d.marshals.SessionFits := by
  intro e sessionKind sessionId hkind hid
  have hbody := @bytes_session_le e sessionKind sessionId
  have hkinds := @textSize_le "session_kind" sessionKind
  have hids := @textSize_le "session_id" sessionId
  have hnames : Json.bytes (Json.quote "session_kind") = 14 ∧
      Json.bytes (Json.quote "session_id") = 12 := by decide
  unfold sessionSize at hbody
  unfold Platform.occupiedBytes sessionReserve DB.marshals
  dsimp only
  omega

theorem bodyCovered_row : BodyCovered d.toPlatform (d.reportRow spec kind payloadHash e) := by
  have hcharged : (d.reportRow spec kind payloadHash e).accountedBytes =
      d.occupiedBytes e + if kind = .question ∧ e.sessionId = "" then sessionReserve else 0 := rfl
  constructor
  · rw [hcharged]
    change d.occupiedBytes e ≤ _
    unfold sessionReserve
    split <;> omega
  · intro hheld
    rw [hcharged, if_pos (reportDelivery_pendingSession hheld)]
    exact le_refl _

/-- A question that waits for its session gets it. -/
theorem BodyCovered.released (hfits : d.SessionFits) (h : BodyCovered d.toPlatform r)
    (hheld : r.deliveryStatus = .pendingSession) (hkind : sessionKind.utf8ByteSize ≤ 64)
    (hid : sessionId.utf8ByteSize ≤ 512) :
    BodyCovered d.toPlatform (r.released sessionKind sessionId) := by
  constructor
  · exact (hfits r.body sessionKind sessionId hkind hid).trans (h.held hheld)
  · intro hst
    cases hst

theorem BodyCovered.unacked (h : BodyCovered d.toPlatform r) (heq : r'.unacked = r.unacked) :
    BodyCovered d.toPlatform r' := by
  have hbody : r'.body = r.body := (congrArg ReportEvent.body heq :)
  have hbytes : r'.accountedBytes = r.accountedBytes := (congrArg ReportEvent.accountedBytes heq :)
  constructor
  · rw [hbody, hbytes]
    exact h.body
  · intro hst
    rw [hbody, hbytes]
    exact h.held ((unacked_pendingSession heq).mp hst)

/-- A session is short where it is applied. -/
theorem applyEvent_session (h : d.applyEvent env s e = .ok s') (hkind : e.kind = .session) :
    e.sessionKind.utf8ByteSize ≤ 64 ∧ e.sessionId.utf8ByteSize ≤ 512 := by
  simp only [DB.applyEvent, hkind, applySession, bind_ok_iff, require_ok, exists_const] at h
  obtain ⟨⟨-, hk, -, hi⟩, -⟩ := h
  exact ⟨hk, hi⟩

theorem bodyCovered_writes (hfits : d.SessionFits)
    (hr : ∀ r ∈ s.reportEvents, BodyCovered d.toPlatform r)
    (h : Writes d s op s') : ∀ r ∈ s'.reportEvents, BodyCovered d.toPlatform r := by
  intro r' hr'
  cases h with
  | claim h =>
    obtain ⟨c₁, c₂, caps, -, -, -, rfl, -⟩ := launch_cases h.launched
    exact hr r' hr'
  | ack he hrep =>
    obtain ⟨r, hr₀, -, heq⟩ := mem_of_map_eq hrep hr'
    exact (hr r hr₀).unacked heq
  | report hc hid hkind hdec _ h₁ h₂ =>
    obtain ⟨hrows, -⟩ := appendReport_rows h₁
    obtain ⟨core, questions, stops, rfl⟩ := askReported_frame h₂
    rw [Table.mem_def, show _ = _ from hrows, List.mem_append, List.mem_singleton] at hr'
    rcases hr' with hr' | rfl
    · exact hr r' hr'
    · exact bodyCovered_row
  | event _ _ _ _ _ h₁ h₂ =>
    obtain ⟨events, order, usage, rfl⟩ := appendEvent_frame h₁
    obtain hsame | ⟨r, hkind, hpending, hrows⟩ := applyEvent_reports h₂
    · exact hr r' (hsame ▸ hr')
    · rw [Table.mem_def, hrows] at hr'
      obtain ⟨q, hq, rfl⟩ := List.mem_map.mp hr'
      split
      next hqr =>
        -- the report that waited for this session, and was charged for it
        obtain ⟨hrm, -, hheld, -⟩ := pendingReportQuestion_spec hpending
        obtain ⟨hk, hi⟩ := applyEvent_session h₂ hkind
        exact (hr r hrm).released hfits hheld hk hi
      next => exact hr q hq
  | _ => exact hr r' hr'

theorem bodyCovered_of_reachable {limits : ConcurrencyLimits} (hfits : d.SessionFits)
    (h : d.Reachable limits s) : ∀ r ∈ s.reportEvents, BodyCovered d.toPlatform r :=
  reachable_induct (fun _ h => absurd h (Table.not_mem_empty _))
    (fun _ _ _ hr hx => bodyCovered_writes hfits hr (exec_writes hx)) h

/-- The bytes a report is charged for are never fewer than those of its body and its artifact,
whatever session its body is written again with. -/
theorem report_body_accounted {limits : ConcurrencyLimits} (h : d.marshals.Reachable limits s) :
    ∀ r ∈ s.reportEvents,
      (Json.bytes (marshalEvent r.body) : Int) + (r.body.artifact.map (·.size)).getD 0 ≤
        r.accountedBytes ∧
      (r.deliveryStatus = .pendingSession → ∀ sessionKind sessionId : String,
        sessionKind.utf8ByteSize ≤ 64 → sessionId.utf8ByteSize ≤ 512 →
        (Json.bytes (marshalEvent (r.released sessionKind sessionId).body) : Int) +
            ((r.released sessionKind sessionId).body.artifact.map (·.size)).getD 0 ≤
          (r.released sessionKind sessionId).accountedBytes) := by
  intro r hr
  have hcovered := bodyCovered_of_reachable marshals_sessionFits h r hr
  refine ⟨hcovered.body, fun hheld sessionKind sessionId hkind hid => ?_⟩
  exact (hcovered.released marshals_sessionFits hheld hkind hid).body

end BodyCovered

/-- The worker of `a` has asked before it is prepared. -/
def unsessionedOps : List Op :=
  toyStart [toyTask "a" 2 []] ++ [toyClaim 11, toyRegister "a" 11, toyAsk 11 "q"]

/-- Its question has room for the longest session, of characters that are all escaped. -/
theorem waiting_report_accounted :
    (toyDB.marshals.run (State.fresh {}) unsessionedOps).reportEvents.rows.map
        ReportEvent.deliveryStatus = [.pendingSession] ∧
      ∀ r ∈ (toyDB.marshals.run (State.fresh {}) unsessionedOps).reportEvents.rows,
        (Json.bytes (marshalEvent (r.released (String.ofList (List.replicate 64 '<'))
            (String.ofList (List.replicate 512 '<'))).body) : Int) +
          (r.body.artifact.map (·.size)).getD 0 ≤ r.accountedBytes := by
  have hstatus : (toyDB.marshals.run (State.fresh {}) unsessionedOps).reportEvents.rows.map
      ReportEvent.deliveryStatus = [.pendingSession] := by decide +kernel
  refine ⟨hstatus, fun r hr => ?_⟩
  have hheld : r.deliveryStatus = .pendingSession := by
    have hmem := List.mem_map_of_mem (f := ReportEvent.deliveryStatus) hr
    rw [hstatus] at hmem
    exact List.mem_singleton.mp hmem
  have hkind : (String.ofList (List.replicate 64 '<')).utf8ByteSize ≤ 64 := by
    rw [Json.utf8ByteSize_ofList]
    decide +kernel
  have hid : (String.ofList (List.replicate 512 '<')).utf8ByteSize ≤ 512 := by
    rw [Json.utf8ByteSize_ofList]
    decide +kernel
  exact (report_body_accounted ⟨unsessionedOps, rfl⟩ r (Table.mem_def.mpr hr)).2 hheld _ _ hkind hid

end Orchestrator.Store
