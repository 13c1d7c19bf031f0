import Orchestrator.Native.AuthPolicy
import Orchestrator.Native.Receiver

/-!
# What a pair of gates lets through

The gates of the two directions of a connection share the state of their policy. Whatever is fed
to them and in whichever order, a peer reads the head and then whole messages from what has been
released, those of both directions in an order in which the policy has passed each of them.
-/
namespace Orchestrator.Native
open Library PythonJson

structure GatePair (π : Type*) where
  policy : π
  gate : Direction → WireGate := fun d => { server := d = .server }
  arrived : Direction → List UInt8 := fun _ => []
  released : Direction → List UInt8 := fun _ => []
  rejected : Bool := false

section
variable {π : Type*} (kind : GateKind) (accept : Direction → π → List UInt8 → Except String π)

/-- The bytes of one direction are fed to its gate. The relay ends with the first rejection. -/
def GatePair.call (s : GatePair π) (c : Direction × List UInt8) : GatePair π :=
  if s.rejected = true then s
  else
    let s := { s with arrived := Function.update s.arrived c.1 (s.arrived c.1 ++ c.2) }
    match kind.feed (accept c.1) s.policy (s.gate c.1) c.2 with
    | ⟨.error _, g, p⟩ =>
      { s with gate := Function.update s.gate c.1 g, policy := p, rejected := true }
    | ⟨.ok out, g, p⟩ =>
      { s with
        gate := Function.update s.gate c.1 g
        policy := p
        released := Function.update s.released c.1 (s.released c.1 ++ out) }

/-- The messages of both directions, judged one after the other. -/
def judge (p : π) (history : List (Direction × List UInt8)) : Except String π :=
  history.foldlM (fun p m => accept m.1 p m.2) p

end

/-- The payloads of one direction. -/
def payloads (d : Direction) (history : List (Direction × List UInt8)) : List (List UInt8) :=
  (history.filter (·.1 = d)).map (·.2)

/-- What may stand behind the head. -/
def WireEvent.Allowed (kind : GateKind) : WireEvent → Prop
  | .head _ => False
  | .message opcode _ => opcode = 1
  | .control _ _ => kind = .auth

/-- The released bytes of a direction are the head, if any of it, and whole frames of the
messages `ms`, which have arrived in this order. -/
structure Passed (kind : GateKind) (d : Direction) (arrived released : List UInt8)
    (ms : List (List UInt8)) : Prop where
  reads : released = [] ∧ ms = [] ∨ ∃ head events,
    receive (d = .client) released = .between none (.head head :: events) ∧
      (∀ e ∈ events, e.Allowed kind) ∧ texts events = ms
  order : ms <+: texts (receive (d = .client) arrived).events

/-! ## Through one gate -/

namespace WireGate

def part (g : WireGate) : Option (Nat × List UInt8) :=
  if g.fragmentFrames = [] then none else some (1, g.fragmentPayload)

/-- Behind the handshake: what has arrived is what has been read and what is left to be, and what
is kept back are the frames of the message that the peer of the arrived bytes has in part. -/
structure Flows (kind : GateKind) (masked : Bool) (g : WireGate)
    (left arrived released : List UInt8)
    (ms : List (List UInt8)) : Prop where
  side : (!g.server) = masked
  opened : g.handshakeDone = true
  started : g.fragmentFrames = [] → g.fragmentPayload = []
  kept : ∀ events, run (Receiver.step masked) (.between none events) g.fragmentFrames.flatten =
    .between g.part events
  closed : g.authClosed = true → kind = .auth ∧ left = []
  reads : ∃ taken part events, arrived = taken ++ left ∧
    receive masked taken = .between part events ∧ (g.authClosed = false → part = g.part) ∧
      texts events = ms
  writes : ∃ head events, receive masked released = .between none (.head head :: events) ∧
    (∀ e ∈ events, e.Allowed kind) ∧ texts events = ms

/-- Before it is complete, the handshake is all in the buffer. -/
structure Opening (masked : Bool) (g : WireGate) (arrived released : List UInt8)
    (ms : List (List UInt8)) :
    Prop where
  side : (!g.server) = masked
  waiting : g.handshakeDone = false
  nothing : g.fragmentFrames = [] ∧ g.fragmentPayload = [] ∧ g.authClosed = false
  incomplete : findMarker g.buffer = none
  reads : arrived = g.buffer
  writes : released = [] ∧ ms = []

def Tracks (kind : GateKind) (masked : Bool) (g : WireGate) (arrived released : List UInt8)
    (ms : List (List UInt8)) : Prop :=
  g.Opening masked arrived released ms ∨ g.Flows kind masked g.buffer arrived released ms

section
variable {π : Type*} {kind : GateKind} {accept : π → List UInt8 → Except String π} {p p' : π}
  {g g' : WireGate} {f : WireFrame} {arrived released out rest : List UInt8}
  {ms : List (List UInt8)} {masked : Bool}

theorem texts_append {events events' : List WireEvent} :
    texts (events ++ events') = texts events ++ texts events' := List.filterMap_append

/-- What the peer makes of a frame that starts a message or goes on with it. -/
theorem finish_continues {events : List WireEvent} (hg : g.Continues f)
    (hstarted : g.fragmentFrames = [] → g.fragmentPayload = []) :
    (Receiver.between g.part events).finish f.fin f.opcode f.payload =
      if f.fin = true then
        .between none (events ++ [WireEvent.message 1 (g.withhold f).fragmentPayload])
      else .between (g.withhold f).part events := by
  have hpart : (g.withhold f).part = some (1, g.fragmentPayload ++ f.payload) := by
    simp [part, withhold]
  rw [hpart]
  obtain ⟨hop, hnone⟩ | ⟨hop, hsome⟩ := hg
  · simp [Receiver.finish, Receiver.between, Receiver.extend, part, withhold, hop, hnone,
      hstarted hnone]
  · simp [Receiver.finish, Receiver.between, Receiver.extend, part, withhold, hop, hsome]

section
variable {left : List UInt8}

theorem Flows.opened_left (h : g.Flows kind masked left arrived released ms) (hleft : left ≠ []) :
    g.authClosed = false := by
  by_contra hclosed
  rw [Bool.not_eq_false] at hclosed
  exact hleft (h.closed hclosed).2

/-- The frame at the head of what is left is read behind what has been read. -/
theorem Flows.reads_frame (h : g.Flows kind masked (f.raw ++ rest) arrived released ms)
    (hopen : g.authClosed = false)
    (hparse : ∀ more, parseFrame g.server (f.raw ++ more) = .frame f more) :
    ∃ taken events, arrived = taken ++ rest ∧ texts events = ms ∧ receive masked taken =
      (Receiver.between g.part events).finish f.fin f.opcode f.payload := by
  obtain rfl := h.side
  obtain ⟨taken, part, events, hreads, htaken, hpart, htexts⟩ := h.reads
  obtain rfl := hpart hopen
  refine ⟨taken ++ f.raw, events, by rw [hreads, List.append_assoc], htexts, ?_⟩
  rw [receive, run_append, ← receive, htaken, run_frame (hparse rest)]

/-- So it is behind the frames that are kept back. -/
theorem Flows.keeps_frame (h : g.Flows kind masked (f.raw ++ rest) arrived released ms)
    (hparse : ∀ more, parseFrame g.server (f.raw ++ more) = .frame f more)
    (events : List WireEvent) :
    run (Receiver.step masked) (.between none events) (g.withhold f).fragmentFrames.flatten =
      (Receiver.between g.part events).finish f.fin f.opcode f.payload := by
  obtain rfl := h.side
  simp only [withhold, List.flatten_append, List.flatten_cons, List.flatten_nil,
    List.append_nil, run_append]
  rw [h.kept, run_frame (hparse rest)]

/-- A frame that is kept back with those before it. -/
theorem Flows.withholds (h : g.Flows kind masked (f.raw ++ rest) arrived released ms)
    (hopen : g.authClosed = false)
    (hparse : ∀ more, parseFrame g.server (f.raw ++ more) = .frame f more)
    (hg : g.Continues f) (hfin : f.fin = false) :
    (g.withhold f).Flows kind masked rest arrived released ms := by
  have hcontinues (events : List WireEvent) :
      (Receiver.between g.part events).finish f.fin f.opcode f.payload =
        .between (g.withhold f).part events := by
    rw [finish_continues hg h.started, hfin]
    rfl
  obtain ⟨taken, events, hreads, htexts, htaken⟩ := h.reads_frame hopen hparse
  exact {
    side := h.side
    opened := h.opened
    started := by simp [withhold]
    kept := fun events => (h.keeps_frame hparse events).trans (hcontinues events)
    closed := fun hclosed => by cases hopen.symm.trans hclosed
    reads := ⟨taken, _, events, hreads, htaken.trans (hcontinues _), fun _ => rfl, htexts⟩
    writes := h.writes }

/-- The last frame of a message, with which the frames that were kept back are released. -/
theorem Flows.releases (h : g.Flows kind masked (f.raw ++ rest) arrived released ms)
    (hopen : g.authClosed = false)
    (hparse : ∀ more, parseFrame g.server (f.raw ++ more) = .frame f more)
    (hg : g.Continues f) (hfin : f.fin = true) :
    (g.withhold f).release.Flows kind masked rest arrived
      (released ++ (g.withhold f).fragmentFrames.flatten)
      (ms ++ [(g.withhold f).fragmentPayload]) := by
  have hends (events : List WireEvent) :
      (Receiver.between g.part events).finish f.fin f.opcode f.payload =
        .between none (events ++ [WireEvent.message 1 (g.withhold f).fragmentPayload]) := by
    rw [finish_continues hg h.started, hfin]
    rfl
  obtain ⟨taken, events, hreads, htexts, htaken⟩ := h.reads_frame hopen hparse
  obtain ⟨head, events', hwrites, hallowed, htexts'⟩ := h.writes
  have hout : receive masked (released ++ (g.withhold f).fragmentFrames.flatten) =
      .between none (.head head ::
        (events' ++ [WireEvent.message 1 (g.withhold f).fragmentPayload])) := by
    rw [receive, run_append, ← receive, hwrites, h.keeps_frame hparse, hends]
    rfl
  refine ⟨h.side, h.opened, fun _ => rfl, fun events => rfl,
    fun hclosed => (by cases hopen.symm.trans hclosed),
    ⟨taken, none, _, hreads, htaken.trans (hends _), fun _ => rfl, ?_⟩, ⟨head, _, hout, ?_, ?_⟩⟩
  · rw [texts_append, htexts]
    rfl
  · intro e he
    obtain he | he := List.mem_append.mp he
    · exact hallowed e he
    · rw [List.mem_singleton.mp he]
      rfl
  · rw [texts_append, htexts']
    rfl

/-- A control frame is released at once, whatever is kept back. -/
theorem Flows.writes_control (h : g.Flows kind masked (f.raw ++ rest) arrived released ms)
    (hparse : ∀ more, parseFrame g.server (f.raw ++ more) = .frame f more) (hkind : kind = .auth)
    (hcontrol : ∀ part events, (Receiver.between part events).finish f.fin f.opcode f.payload =
      .between part (events ++ [WireEvent.control f.opcode f.payload])) :
    ∃ head events, receive masked (released ++ f.raw) = .between none (.head head :: events) ∧
      (∀ e ∈ events, e.Allowed kind) ∧ texts events = ms := by
  obtain rfl := h.side
  obtain ⟨head, events, hwrites, hallowed, htexts⟩ := h.writes
  refine ⟨head, events ++ [WireEvent.control f.opcode f.payload], ?_, ?_, ?_⟩
  · rw [receive, run_append, ← receive, hwrites, run_frame (hparse rest), hcontrol]
    rfl
  · intro e he
    obtain he | he := List.mem_append.mp he
    · exact hallowed e he
    · rw [List.mem_singleton.mp he]
      exact hkind
  · rw [texts_append, htexts]
    exact List.append_nil _

theorem Flows.reads_control (h : g.Flows kind masked (f.raw ++ rest) arrived released ms)
    (hopen : g.authClosed = false)
    (hparse : ∀ more, parseFrame g.server (f.raw ++ more) = .frame f more)
    (hcontrol : ∀ part events, (Receiver.between part events).finish f.fin f.opcode f.payload =
      .between part (events ++ [WireEvent.control f.opcode f.payload])) :
    ∃ taken events, arrived = taken ++ rest ∧ receive masked taken = .between g.part events ∧
      texts events = ms := by
  obtain ⟨taken, events, hreads, htexts, htaken⟩ := h.reads_frame hopen hparse
  refine ⟨taken, _, hreads, htaken.trans (hcontrol _ _), ?_⟩
  rw [texts_append, htexts]
  exact List.append_nil _

end

/-- The frame at the head of what is left has been taken from the buffer. -/
theorem Flows.frame {fed : Fed π} (h : g.Flows kind masked (f.raw ++ rest) arrived released ms)
    (hbuffer : g.buffer = rest) (hraw : f.raw ≠ [])
    (hparse : ∀ more, parseFrame g.server (f.raw ++ more) = .frame f more)
    (ht : Took kind accept p g f fed) (hok : fed.result = .ok out) :
    ∃ new, fed.gate.Flows kind masked rest arrived (released ++ out) (ms ++ new) ∧
      new.foldlM accept p = .ok fed.policy := by
  have hopen := h.opened_left (by simp [hraw])
  cases ht with
  | withheld hg hfin hsize =>
    cases hok
    refine ⟨[], ?_, rfl⟩
    rw [List.append_nil, List.append_nil]
    exact h.withholds hopen hparse hg hfin
  | released hg hfin haccept =>
    cases hok
    refine ⟨[(g.withhold f).fragmentPayload], h.releases hopen hparse hg hfin, ?_⟩
    rw [List.foldlM_cons, haccept]
    rfl
  | control hkind hf hfin hsize =>
    cases hok
    have hcontrol (part : Option (Nat × List UInt8)) (events : List WireEvent) :
        (Receiver.between part events).finish f.fin f.opcode f.payload =
          .between part (events ++ [WireEvent.control f.opcode f.payload]) := by
      obtain hf | hf := hf <;> simp [Receiver.finish, Receiver.between, hf, hfin, hsize]
    obtain ⟨taken, events, hreads, htaken, htexts⟩ := h.reads_control hopen hparse hcontrol
    refine ⟨[], ?_, rfl⟩
    rw [List.append_nil]
    exact ⟨h.side, h.opened, h.started, h.kept, fun hclosed => (by cases hopen.symm.trans hclosed),
      ⟨taken, _, events, hreads, htaken, fun _ => rfl, htexts⟩,
      h.writes_control hparse hkind hcontrol⟩
  | closed hkind hf hfin hsize hlast =>
    cases hok
    have hcontrol (part : Option (Nat × List UInt8)) (events : List WireEvent) :
        (Receiver.between part events).finish f.fin f.opcode f.payload =
          .between part (events ++ [WireEvent.control f.opcode f.payload]) := by
      simp [Receiver.finish, Receiver.between, hf, hfin, hsize]
    obtain ⟨taken, events, hreads, htaken, htexts⟩ := h.reads_control hopen hparse hcontrol
    refine ⟨[], ?_, rfl⟩
    rw [List.append_nil]
    exact ⟨h.side, h.opened, fun _ => rfl, fun events => rfl,
      fun _ => ⟨hkind, hbuffer.symm.trans hlast⟩,
      ⟨taken, _, events, hreads, htaken, (by intro hstays; cases hstays), htexts⟩,
      h.writes_control hparse hkind hcontrol⟩
  | refused => cases hok
  | spoiled hg => cases hok

theorem Took.gate {fed : Fed π} (ht : Took kind accept p g f fed) :
    fed.gate.buffer = g.buffer ∧ fed.gate.server = g.server := by
  cases ht <;> exact ⟨rfl, rfl⟩

theorem Flows.frames {handle : π → WireGate → WireFrame → Fed π} {n : Nat}
    (took : ∀ p g f, Took kind accept p g f (handle p g f))
    (h : g.Flows kind masked g.buffer arrived released ms)
    (hok : (g.frames handle n p).result = .ok out) :
    ∃ new, (g.frames handle n p).gate.Flows kind masked (g.frames handle n p).gate.buffer arrived
        (released ++ out) (ms ++ new) ∧
      new.foldlM accept p = .ok (g.frames handle n p).policy := by
  induction n generalizing g p released ms out with
  | zero =>
    cases hok
    exact ⟨[], by simpa [WireGate.frames] using h, rfl⟩
  | succ n ih =>
    unfold WireGate.frames at hok ⊢
    cases hparse : parseFrame g.server g.buffer with
    | wait =>
      rw [hparse] at hok
      cases hok
      exact ⟨[], by simpa using h, rfl⟩
    | reject reason =>
      rw [hparse] at hok
      cases hok
    | frame f rest =>
      obtain ⟨hbuffer, hlow, -, -, hmore⟩ := parseFrame_frame hparse
      have hraw : f.raw ≠ [] := by
        rintro hnil
        rw [hnil] at hlow
        simp at hlow
      have ht := took p { g with buffer := rest } f
      obtain ⟨hrest, -⟩ := ht.gate
      rw [hparse] at hok
      rw [hbuffer] at h
      have hpopped : Flows kind masked { g with buffer := rest }
        (f.raw ++ rest) arrived released ms :=
        ⟨h.side, h.opened, h.started, h.kept, h.closed, h.reads, h.writes⟩
      dsimp only at hok hrest ⊢
      generalize handle p { g with buffer := rest } f = fed at ht hok hrest ⊢
      rcases fed with ⟨reason | first, g', p'⟩
      · cases hok
      · obtain ⟨new, hflows, hpolicy⟩ := hpopped.frame rfl hraw hmore ht rfl
        dsimp only at hok hrest hflows hpolicy ⊢
        rw [← hrest] at hflows
        rcases hgo : WireGate.frames handle n p' g' with ⟨reason | outs, g'', p''⟩
        · rw [hgo] at hok
          cases hok
        · rw [hgo] at hok
          cases hok
          obtain ⟨new', hflows', hpolicy'⟩ := ih hflows (by rw [hgo])
          rw [hgo] at hflows' hpolicy'
          refine ⟨new ++ new', by simpa using hflows', ?_⟩
          rw [List.foldlM_append, hpolicy]
          exact hpolicy'

theorem Flows.framesAfter {handle : π → WireGate → WireFrame → Fed π} {head : List UInt8}
    (took : ∀ p g f, Took kind accept p g f (handle p g f))
    (h : g.Flows kind masked g.buffer arrived (released ++ head) ms)
    (hok : (g.framesAfter handle head p).result = .ok out) :
    ∃ new, (g.framesAfter handle head p).gate.Tracks kind masked arrived (released ++ out)
      (ms ++ new) ∧
      new.foldlM accept p = .ok (g.framesAfter handle head p).policy := by
  unfold WireGate.framesAfter at hok ⊢
  rcases hgo : g.frames handle g.buffer.length p with ⟨reason | outs, g', p'⟩
  · rw [hgo] at hok
    cases hok
  · rw [hgo] at hok
    cases hok
    obtain ⟨new, hflows, hpolicy⟩ := h.frames took (by rw [hgo])
    rw [hgo] at hflows hpolicy
    exact ⟨new, .inr (by simpa using hflows), hpolicy⟩

/-! ## One call -/

theorem Flows.fill {data : List UInt8} (h : g.Flows kind masked g.buffer arrived released ms)
    (hopen : g.authClosed = false) :
    (g.fill data).Flows kind masked (g.fill data).buffer (arrived ++ data) released ms := by
  obtain ⟨taken, part, events, hreads, hrest⟩ := h.reads
  refine ⟨h.side, h.opened, h.started, h.kept, fun hclosed => ?_, ⟨taken, part, events, ?_, hrest⟩,
    h.writes⟩
  · rw [show (g.fill data).authClosed = g.authClosed from rfl, hopen] at hclosed
    cases hclosed
  · rw [hreads, List.append_assoc]
    rfl

theorem Opening.fill {data : List UInt8} (h : g.Opening masked arrived released ms)
    (hnone : findMarker (g.fill data).buffer = none) :
    (g.fill data).Opening masked (arrived ++ data) released ms :=
  ⟨h.side, h.waiting, h.nothing, hnone, by rw [h.reads]; rfl, h.writes⟩

/-- The head is complete and goes out. -/
theorem Opening.opens {data : List UInt8} {i : Nat} (h : g.Opening masked arrived released ms)
    (hsome : findMarker (g.fill data).buffer = some i) :
    ((g.fill data).openAt (i + 4)).Flows kind masked ((g.fill data).openAt (i + 4)).buffer
      (arrived ++ data) (released ++ (g.fill data).buffer.take (i + 4)) ms := by
  obtain rfl := h.side
  obtain ⟨hframes, hpayload, hclosed⟩ := h.nothing
  obtain ⟨hreleased, hms⟩ := h.writes
  have hhead : receive (!g.server) ((g.fill data).buffer.take (i + 4)) = _ := receive_head hsome
  have hpart : ((g.fill data).openAt (i + 4)).part = none := by
    simp [part, openAt, WireGate.fill, hframes]
  subst hreleased hms
  refine ⟨rfl, rfl, fun _ => hpayload, fun events => ?_, fun hc => ?_,
    ⟨(g.fill data).buffer.take (i + 4), none, _, ?_, hhead, fun _ => hpart.symm, rfl⟩,
    ⟨_, [], hhead, by simp, rfl⟩⟩
  · rw [hpart, show ((g.fill data).openAt (i + 4)).fragmentFrames = g.fragmentFrames from rfl,
      hframes]
    rfl
  · rw [show ((g.fill data).openAt (i + 4)).authClosed = g.authClosed from rfl, hclosed] at hc
    cases hc
  · rw [h.reads]
    exact (List.take_append_drop _ _).symm

theorem Tracks.nativeFeed {data : List UInt8} (h : g.Tracks .native masked arrived released ms)
    (hok : (g.nativeFeed accept p data).result = .ok out) :
    ∃ new, (g.nativeFeed accept p data).gate.Tracks .native masked (arrived ++ data)
      (released ++ out)
        (ms ++ new) ∧
      new.foldlM accept p = .ok (g.nativeFeed accept p data).policy := by
  unfold WireGate.nativeFeed at hok ⊢
  split at hok
  · cases hok
  next hchunk =>
    rw [if_neg hchunk]
    dsimp only at hok ⊢
    obtain hopening | hflows := h
    · have hwaiting : (g.fill data).handshakeDone = false := hopening.waiting
      rw [hwaiting, if_neg (by decide)] at hok ⊢
      cases hfind : findMarker (g.fill data).buffer with
      | none =>
        rw [hfind] at hok
        dsimp only at hok ⊢
        split at hok
        · cases hok
        next hsmall =>
          cases hok
          rw [if_neg hsmall]
          exact ⟨[], .inl (by simpa using hopening.fill hfind), rfl⟩
      | some i =>
        rw [hfind] at hok
        exact (hopening.opens hfind).framesAfter (fun _ _ _ => nativeFrame_took) hok
    · have hdone : (g.fill data).handshakeDone = true := hflows.opened
      rw [hdone, if_pos rfl] at hok ⊢
      have hopen : g.authClosed = false := by
        by_contra hclosed
        cases (hflows.closed (Bool.not_eq_false _ ▸ hclosed)).1
      exact Flows.framesAfter (fun _ _ _ => nativeFrame_took)
        (by simpa using hflows.fill hopen) hok

theorem Tracks.feedAuth {data : List UInt8} (h : g.Tracks .auth masked arrived released ms)
    (hok : (g.feedAuth accept p data).result = .ok out) :
    ∃ new, (g.feedAuth accept p data).gate.Tracks .auth masked (arrived ++ data) (released ++ out)
        (ms ++ new) ∧
      new.foldlM accept p = .ok (g.feedAuth accept p data).policy := by
  unfold WireGate.feedAuth at hok ⊢
  split at hok
  · cases hok
  next hchunk =>
    have hopen : g.authClosed = false := Bool.eq_false_iff.mpr fun hc => hchunk (.inr hc)
    rw [if_neg hchunk]
    dsimp only at hok ⊢
    obtain hopening | hflows := h
    · have hwaiting : (g.fill data).handshakeDone = false := hopening.waiting
      rw [hwaiting, if_neg (by decide)] at hok ⊢
      cases hfind : findMarker (g.fill data).buffer with
      | none =>
        rw [hfind] at hok
        dsimp only at hok ⊢
        split at hok
        · cases hok
        next hsmall =>
          cases hok
          rw [if_neg hsmall]
          exact ⟨[], .inl (by simpa using hopening.fill hfind), rfl⟩
      | some i =>
        rw [hfind] at hok
        dsimp only at hok ⊢
        split at hok
        · cases hok
        next hsmall =>
          rw [if_neg hsmall]
          exact (hopening.opens hfind).framesAfter (fun _ _ _ => authFrame_took) hok
    · have hdone : (g.fill data).handshakeDone = true := hflows.opened
      rw [hdone, if_pos rfl] at hok ⊢
      exact Flows.framesAfter (fun _ _ _ => authFrame_took)
        (by simpa using hflows.fill hopen) hok

theorem Tracks.feed {data : List UInt8} (h : g.Tracks kind masked arrived released ms)
    (hok : (kind.feed accept p g data).result = .ok out) :
    ∃ new, (kind.feed accept p g data).gate.Tracks kind masked (arrived ++ data) (released ++ out)
        (ms ++ new) ∧
      new.foldlM accept p = .ok (kind.feed accept p g data).policy := by
  cases kind with
  | native => exact h.nativeFeed hok
  | auth =>
    unfold GateKind.feed at hok ⊢
    dsimp only at hok ⊢
    unfold WireGate.authFeed at hok ⊢
    rcases hfed : g.feedAuth accept p data with ⟨reason | out', g', p'⟩
    · rw [hfed] at hok
      cases hok
    · rw [hfed] at hok
      cases hok
      have hafter := h.feedAuth (by rw [hfed])
      rwa [hfed] at hafter

theorem Tracks.passed {d : Direction} (h : g.Tracks kind (d = .client) arrived released ms) :
    Passed kind d arrived released ms := by
  obtain h | h := h
  · obtain ⟨rfl, rfl⟩ := h.writes
    exact ⟨.inl ⟨rfl, rfl⟩, List.nil_prefix⟩
  · obtain ⟨head, events, hwrites, hallowed, htexts⟩ := h.writes
    refine ⟨.inr ⟨head, events, hwrites, hallowed, htexts⟩, ?_⟩
    obtain ⟨taken, part, events', rfl, htaken, -, htexts'⟩ := h.reads
    have hgrows : (receive (d = .client) taken).events <+:
        (receive (d = .client) (taken ++ g.buffer)).events := receive_events
    obtain ⟨more, hmore⟩ := hgrows
    rw [← hmore, htaken, texts_append]
    exact htexts' ▸ List.prefix_append _ _

end
end WireGate

/-! ## Through a pair of them -/

section
variable {π : Type*} {kind : GateKind} {accept : Direction → π → List UInt8 → Except String π}
  {start : π} {s : GatePair π} {d e : Direction} {ms : List (List UInt8)}
  {history : List (Direction × List UInt8)}

theorem Passed.later {arrived released data : List UInt8} (h : Passed kind d arrived released ms) :
    Passed kind d (arrived ++ data) released ms := by
  refine ⟨h.reads, h.order.trans ?_⟩
  have hgrows : (receive (d = .client) arrived).events <+:
      (receive (d = .client) (arrived ++ data)).events := receive_events
  obtain ⟨more, hmore⟩ := hgrows
  rw [← hmore, WireGate.texts_append]
  exact List.prefix_append _ _

@[simp] theorem payloads_append {history' : List (Direction × List UInt8)} :
    payloads d (history ++ history') = payloads d history ++ payloads d history' := by
  simp [payloads]

@[simp] theorem payloads_map :
    payloads d (ms.map fun m => (e, m)) = if e = d then ms else [] := by
  split
  next h => simp [payloads, List.filter_map, Function.comp_def, h]
  next h => simp [payloads, List.filter_map, Function.comp_def, h]

theorem judge_append {history' : List (Direction × List UInt8)} :
    judge accept start (history ++ history') =
      (judge accept start history).bind fun p => judge accept p history' :=
  List.foldlM_append

theorem judge_map {p : π} :
    judge accept p (ms.map fun m => (d, m)) = ms.foldlM (accept d) p := by
  unfold judge
  rw [List.foldlM_map]

/-- What is true of a pair between calls. -/
structure GatePair.Lets (kind : GateKind) (accept : Direction → π → List UInt8 → Except String π)
    (start : π) (s : GatePair π) (history : List (Direction × List UInt8)) : Prop where
  judged : ∃ p, judge accept start history = .ok p ∧ (s.rejected = false → p = s.policy)
  passed : ∀ d, Passed kind d (s.arrived d) (s.released d) (payloads d history)
  tracks : s.rejected = false → ∀ d,
    (s.gate d).Tracks kind (d = .client) (s.arrived d) (s.released d) (payloads d history)

theorem GatePair.lets_start : GatePair.Lets kind accept start { policy := start } [] := by
  have htracks : ∀ d : Direction, ({ server := d = .server } : WireGate).Tracks kind
      (d = .client) [] [] [] := fun d => by
    refine .inl ⟨?_, rfl, ⟨rfl, rfl, rfl⟩, rfl, rfl, rfl, rfl⟩
    cases d <;> rfl
  exact ⟨⟨start, rfl, fun _ => rfl⟩, fun d => (htracks d).passed, fun _ => htracks⟩

theorem GatePair.Lets.call {c : Direction × List UInt8} (h : s.Lets kind accept start history) :
    ∃ history', (s.call kind accept c).Lets kind accept start history' := by
  obtain ⟨d, data⟩ := c
  unfold GatePair.call
  split
  next hrejected => exact ⟨history, h⟩
  next hrejected =>
    rw [Bool.not_eq_true] at hrejected
    obtain ⟨p, hjudged, hpolicy⟩ := h.judged
    obtain rfl := hpolicy hrejected
    dsimp only
    rcases hfed : kind.feed (accept d) s.policy (s.gate d) data with ⟨reason | out, g, p⟩
    · refine ⟨history, ⟨⟨s.policy, hjudged, nofun⟩, fun e => ?_, nofun⟩⟩
      dsimp only
      by_cases he : e = d
      · subst he
        rw [Function.update_self]
        exact (h.passed e).later
      · rw [Function.update_of_ne he]
        exact h.passed e
    · obtain ⟨new, htracks, hnew⟩ := (h.tracks hrejected d).feed (by rw [hfed])
      rw [hfed] at htracks hnew
      have hall : ∀ e, (Function.update s.gate d g e).Tracks kind (e = .client)
          (Function.update s.arrived d (s.arrived d ++ data) e)
          (Function.update s.released d (s.released d ++ out) e)
          (payloads e (history ++ new.map fun m => (d, m))) := fun e => by
        rw [payloads_append, payloads_map]
        by_cases he : e = d
        · subst he
          simpa using htracks
        · have hde : d ≠ e := fun h => he h.symm
          simpa [Function.update_of_ne he, hde] using h.tracks hrejected e
      refine ⟨history ++ new.map fun m => (d, m), ⟨p, ?_, fun _ => rfl⟩,
        fun e => (hall e).passed, fun _ => hall⟩
      rw [judge_append, hjudged]
      exact judge_map.trans hnew

theorem GatePair.lets_run (feeds : List (Direction × List UInt8)) :
    ∃ history, (run (GatePair.call kind accept) { policy := start } feeds).Lets kind accept start
      history :=
  run_invariant (I := fun s : GatePair π => ∃ history, s.Lets kind accept start history)
    ⟨[], GatePair.lets_start⟩ fun _ _ ⟨_, h⟩ => h.call

end
/-! ## The policies -/

section
variable (depth : Nat) (owner : Text)

/-- The message has this id. -/
def carries (id : Int) (payload : List UInt8) : Bool :=
  (jsonUnique depth payload).toOption.bind messageId = some id

def asked (history : List (Direction × List UInt8)) (id : Int) : Nat :=
  history.countP fun m => m.1 = .client && carries depth id m.2

def answered (history : List (Direction × List UInt8)) (id : Int) : Nat :=
  history.countP fun m => m.1 = .server && carries depth id m.2

/-- A message that a helper, or its backend, may send after the messages `before`. -/
def HelperMayPass (before : List (Direction × List UInt8)) (m : Direction × List UInt8) : Prop :=
  ∃ v, jsonUnique depth m.2 = .ok v ∧ match m.1 with
    | .client => validateHelperRpc depth v owner = .ok () ∧
      ∀ id, messageId v = some id → asked depth before id = answered depth before id
    | .server => validateHelperServerMessage v owner = .ok () ∧
      ∀ id, messageId v = some id → asked depth before id = answered depth before id + 1

/-- A message that may be sent while a trial's credentials are in use. -/
def AuthMayPass (m : Direction × List UInt8) : Prop :=
  ∃ fields, uniqueJson depth m.2 = .ok fields ∧ enforceAuthRpcPolicy m.1 fields = .ok () ∧
    (m.1 = .client → ∀ method, get? fields "method" = some (.str method) →
      isOneOf configWriteMethods method = false ∧
      (isOneOf sessionOverrideMethods method = true → ∀ params,
        get? fields "params" = some (.dict params) → isUnsafeOverride method params = false))

end

section
variable {depth : Nat} {owner : Text} {history : List (Direction × List UInt8)}
  {m : Direction × List UInt8} {pending pending' : List Int}

/-- The pending ids are those of the requests that have not been answered. -/
def Unanswered (depth : Nat) (history : List (Direction × List UInt8)) (pending : List Int) :
    Prop :=
  ∀ id, pending.count id + answered depth history id = asked depth history id ∧
    pending.count id ≤ 1

theorem asked_append {id : Int} : asked depth (history ++ [m]) id =
    asked depth history id + if m.1 = .client ∧ carries depth id m.2 = true then 1 else 0 := by
  simp [asked, List.countP_append, List.countP_singleton]

theorem answered_append {id : Int} : answered depth (history ++ [m]) id =
    answered depth history id + if m.1 = .server ∧ carries depth id m.2 = true then 1 else 0 := by
  simp [answered, List.countP_append, List.countP_singleton]

theorem carries_of {v : Value} {id : Int} (h : jsonUnique depth m.2 = .ok v) :
    carries depth id m.2 = true ↔ messageId v = some id := by
  simp [carries, h, Except.toOption]

theorem Unanswered.other (h : Unanswered depth history pending)
    (hnone : ∀ id, carries depth id m.2 = false) : Unanswered depth (history ++ [m]) pending := by
  intro id
  simp only [asked_append, answered_append, hnone id, Bool.false_eq_true, and_false, if_false,
    Nat.add_zero]
  exact h id

section
variable {v : Value} {id : Int}

/-- A request with an id that is not pending. -/
theorem Unanswered.asks (h : Unanswered depth history pending) (hm : m.1 = .client)
    (hv : jsonUnique depth m.2 = .ok v) (hid : messageId v = some id) (hnew : id ∉ pending) :
    asked depth history id = answered depth history id ∧
      Unanswered depth (history ++ [m]) (id :: pending) := by
  have hzero : pending.count id = 0 := List.count_eq_zero.mpr hnew
  constructor
  · have := (h id).1
    omega
  · intro id'
    have hold := h id'
    simp only [asked_append, answered_append, carries_of hv, hm, hid, Option.some_inj, true_and,
      reduceCtorEq, false_and, if_false, List.count_cons, beq_iff_eq]
    by_cases heq : id = id'
    · subst heq
      simp only [if_true]
      omega
    · simp only [heq, if_false]
      omega

/-- The answer to a request that is pending. -/
theorem Unanswered.answers (h : Unanswered depth history pending) (hm : m.1 = .server)
    (hv : jsonUnique depth m.2 = .ok v) (hid : messageId v = some id) (hknown : id ∈ pending) :
    asked depth history id = answered depth history id + 1 ∧
      Unanswered depth (history ++ [m]) (pending.erase id) := by
  have hone : 1 ≤ pending.count id := List.count_pos_iff.mpr hknown
  constructor
  · have := h id
    omega
  · intro id'
    have hold := h id'
    simp only [asked_append, answered_append, carries_of hv, hm, hid, Option.some_inj, true_and,
      reduceCtorEq, false_and, if_false]
    by_cases heq : id = id'
    · subst heq
      rw [List.count_erase_self]
      simp only [if_true]
      omega
    · rw [List.count_erase_of_ne (Ne.symm heq)]
      simp only [heq, if_false]
      omega

/-- A message without an id. -/
theorem Unanswered.notes (h : Unanswered depth history pending)
    (hv : jsonUnique depth m.2 = .ok v) (hid : messageId v = none) :
    Unanswered depth (history ++ [m]) pending := by
  refine h.other fun id => ?_
  rw [← Bool.not_eq_true, carries_of hv, hid]
  simp

end

theorem helperAccept_ok (hpending : Unanswered depth history pending)
    (h : helperAccept depth owner m.1 pending m.2 = .ok pending') :
    HelperMayPass depth owner history m ∧ Unanswered depth (history ++ [m]) pending' := by
  obtain ⟨d, payload⟩ := m
  unfold helperAccept at h
  obtain ⟨v, hv, h⟩ := bind_ok_iff.mp h
  cases d with
  | client =>
    obtain ⟨⟨⟩, hvalid, h⟩ := bind_ok_iff.mp h
    cases hid : messageId v with
    | none =>
      rw [hid] at h
      obtain rfl := pure_ok.mp h
      exact ⟨⟨v, hv, hvalid, fun id h => by rw [hid] at h; cases h⟩, hpending.notes hv hid⟩
    | some id =>
      rw [hid] at h
      obtain ⟨⟨⟩, hnew, h⟩ := bind_ok_iff.mp h
      obtain rfl := pure_ok.mp h
      obtain ⟨hcount, hafter⟩ := hpending.asks (m := (.client, payload)) rfl hv hid
        (require_ok.mp hnew)
      refine ⟨⟨v, hv, hvalid, fun id' h' => ?_⟩, hafter⟩
      obtain rfl := Option.some_inj.mp (hid.symm.trans h')
      exact hcount
  | server =>
    obtain ⟨⟨⟩, hvalid, h⟩ := bind_ok_iff.mp h
    cases hid : messageId v with
    | none =>
      rw [hid] at h
      obtain rfl := pure_ok.mp h
      exact ⟨⟨v, hv, hvalid, fun id h => by rw [hid] at h; cases h⟩, hpending.notes hv hid⟩
    | some id =>
      rw [hid] at h
      obtain ⟨⟨⟩, hknown, h⟩ := bind_ok_iff.mp h
      obtain rfl := pure_ok.mp h
      obtain ⟨hcount, hafter⟩ := hpending.answers (m := (.server, payload)) rfl hv hid
        (require_ok.mp hknown)
      refine ⟨⟨v, hv, hvalid, fun id' h' => ?_⟩, hafter⟩
      obtain rfl := Option.some_inj.mp (hid.symm.trans h')
      exact hcount

/-- The policy has passed every message after those before it. -/
theorem helper_judged (h : judge (helperAccept depth owner) [] history = .ok pending) :
    Unanswered depth history pending ∧
      ∀ before m, before ++ [m] <+: history → HelperMayPass depth owner before m := by
  induction history using List.reverseRecOn generalizing pending with
  | nil =>
    cases h
    exact ⟨fun id => ⟨rfl, Nat.zero_le _⟩, fun before m hpre => by simp at hpre⟩
  | append_singleton history m ih =>
    rw [judge_append] at h
    obtain ⟨p, hp, h⟩ := bind_ok_iff.mp h
    have hone : helperAccept depth owner m.1 p m.2 = .ok pending := by
      simpa [judge] using h
    obtain ⟨hunanswered, hbefore⟩ := ih hp
    obtain ⟨hmay, hafter⟩ := helperAccept_ok hunanswered hone
    refine ⟨hafter, fun before m' hpre => ?_⟩
    obtain heq | hpre := List.prefix_concat_iff.mp hpre
    · obtain ⟨rfl, hm⟩ := List.append_inj' heq rfl
      rw [List.singleton_inj.mp hm]
      exact hmay
    · exact hbefore before m' hpre

theorem authAccept_ok (h : authAccept depth m.1 () m.2 = .ok ()) : AuthMayPass depth m := by
  obtain ⟨d, payload⟩ := m
  unfold authAccept at h
  obtain ⟨fields, hfields, h⟩ := bind_ok_iff.mp h
  cases d with
  | server => exact ⟨fields, hfields, h, nofun⟩
  | client =>
    obtain ⟨⟨⟩, hoverrides, hpolicy⟩ := bind_ok_iff.mp h
    refine ⟨fields, hfields, hpolicy, fun _ method hmethod => ?_⟩
    unfold enforceTrialAuthOverrides at hoverrides
    rw [hmethod] at hoverrides
    obtain ⟨⟨⟩, hwrite, hoverrides⟩ := bind_ok_iff.mp hoverrides
    refine ⟨require_ok.mp hwrite, fun hsession params hparams => ?_⟩
    rw [if_pos hsession, hparams] at hoverrides
    exact require_ok.mp hoverrides

theorem auth_judged (h : judge (authAccept depth) () history = .ok ()) :
    ∀ m ∈ history, AuthMayPass depth m := by
  induction history with
  | nil => simp
  | cons m history ih =>
    unfold judge at h
    rw [List.foldlM_cons] at h
    obtain ⟨⟨⟩, hm, h⟩ := bind_ok_iff.mp h
    intro m' hmem
    obtain rfl | hmem := List.mem_cons.mp hmem
    · exact authAccept_ok hm
    · exact ih h m' hmem

end

/-- What a helper's pair of gates and that of a trial let through: whole messages that the policy
has passed, each with those before it; and a call that is rejected releases nothing. -/
theorem gates_release_what_passed :
    (∀ (depth : Nat) (owner : Text) (feeds : List (Direction × List UInt8)), ∃ history,
      (∀ before m, before ++ [m] <+: history → HelperMayPass depth owner before m) ∧
      ∀ d, let s := run (GatePair.call .native (helperAccept depth owner)) { policy := [] } feeds
        Passed .native d (s.arrived d) (s.released d) (payloads d history)) ∧
    (∀ (depth : Nat) (feeds : List (Direction × List UInt8)), ∃ history,
      (∀ m ∈ history, AuthMayPass depth m) ∧
      ∀ d, let s := run (GatePair.call .auth (authAccept depth)) { policy := () } feeds
        Passed .auth d (s.arrived d) (s.released d) (payloads d history)) ∧
    ∀ (π : Type) (kind : GateKind) (accept : Direction → π → List UInt8 → Except String π)
      (s : GatePair π) (c : Direction × List UInt8),
      (s.call kind accept c).rejected = true → (s.call kind accept c).released = s.released := by
  refine ⟨fun depth owner feeds => ?_, fun depth feeds => ?_, fun π kind accept s c => ?_⟩
  · obtain ⟨history, h⟩ := GatePair.lets_run feeds
    obtain ⟨pending, hjudged, -⟩ := h.judged
    exact ⟨history, (helper_judged hjudged).2, h.passed⟩
  · obtain ⟨history, h⟩ := GatePair.lets_run feeds
    obtain ⟨policy, hjudged, -⟩ := h.judged
    exact ⟨history, auth_judged hjudged, h.passed⟩
  · unfold GatePair.call
    split
    · exact fun _ => rfl
    · dsimp only
      rcases kind.feed (accept c.1) s.policy (s.gate c.1) c.2 with ⟨reason | out, g, p⟩
      · exact fun _ => rfl
      · exact fun h => absurd h ‹_›

end Orchestrator.Native
