import Orchestrator.Bridge.Capability

/-!
# Generations and crashes

A process that dies between the creation of a generation and the rename of `current.json` leaves
a file of the number that the next generation would have.
-/
namespace Orchestrator.Bridge
open Library PythonJson

section
variable {g : Digests} {thread origin : Text} {π : Type}

/-- A generation that can be read, and counted on from. -/
def Generation.Fits (g : Digests) (c : Generation) : Prop :=
  g.size c ≤ maxJson ∧ c.number < maxGeneration

/-- `current.json` is generation `n`, and no later one has been returned. -/
structure Latest (g : Digests) (thread origin : Text) (n : Nat) (s : CapabilityDir)
    (l : List (π × Except BridgeError OwnerCapability)) : Prop where
  current : s.current = none ∧ n = 0 ∨ ∃ c, s.current = some (.whole c) ∧ c.number = n ∧
    s.generations n = some (.whole c) ∧ c.controllerThreadId = thread ∧
    c.originContextId = origin ∧ g.proof c.ownerAttachment = c.attachmentProofSha256
  returned : ∀ p cap, (p, .ok cap) ∈ l → cap.number ≤ n

/-- No file is left over. -/
structure Clean (g : Digests) (thread origin : Text) (n : Nat) (s : CapabilityDir)
    (l : List (π × Except BridgeError OwnerCapability)) : Prop
    extends Latest g thread origin n s l where
  above : ∀ k, n < k → s.generations k = none
  stages : ∀ pid, s.stages pid = none

/-- The file of the next generation is there, and `current.json` is still the one before. -/
structure Midway (g : Digests) (thread origin : Text) (n : Nat) (f : File Generation) (pid : Nat)
    (stage : Option (File Generation)) (s : CapabilityDir)
    (l : List (π × Except BridgeError OwnerCapability)) : Prop
    extends Latest g thread origin n s l where
  created : s.generations (n + 1) = some f
  above : ∀ k, n + 1 < k → s.generations k = none
  staged : s.stages pid = stage
  others : ∀ q, q ≠ pid → s.stages q = none

/-- What holds while no process has the lock. -/
def CapabilityDir.Quiet (g : Digests) (thread origin : Text) (s : CapabilityDir)
    (l : List (π × Except BridgeError OwnerCapability)) : Prop :=
  ∃ n, Clean g thread origin n s l ∧ ∀ c, s.current = some (.whole c) → c.Fits g

/-- What holds at the operations of `bind`. -/
def Bind.At (g : Digests) (thread origin : Text) (b : Bind) (s : CapabilityDir)
    (l : List (π × Except BridgeError OwnerCapability)) : Prop :=
  (b.attachment.controllerThreadId = thread ∧ g.originOf b.attachment = origin) ∧ match b.op with
  | .mkdir | .readCurrent => s.Quiet g thread origin l
  | .readGeneration c =>
    s.Quiet g thread origin l ∧ s.current = some (.whole c) ∧ g.same c b.attachment
  | .create v => ∃ n, Clean g thread origin n s l ∧ (∀ c, s.current = some (.whole c) → c.Fits g) ∧
    v = g.generation b.attachment (n + 1)
  | .write v => ∃ n, Midway g thread origin n .torn b.pid none s l ∧
    v = g.generation b.attachment (n + 1)
  | .stage v => ∃ n, Midway g thread origin n (.whole v) b.pid none s l ∧
    v = g.generation b.attachment (n + 1)
  | .writeStage v => ∃ n, Midway g thread origin n (.whole v) b.pid (some .torn) s l ∧
    v = g.generation b.attachment (n + 1)
  | .rename v => ∃ n, Midway g thread origin n (.whole v) b.pid (some (.whole v)) s l ∧
    v = g.generation b.attachment (n + 1)
  | .sync v => ∃ n, Clean g thread origin (n + 1) s l ∧ s.current = some (.whole v) ∧
    v = g.generation b.attachment (n + 1)

/-- A process may die there: it leaves no file that the next generation needs, and what it has
made current can be counted on from. -/
def Bind.mayCrash (g : Digests) (b : Bind) : Prop :=
  match b.op with
  | .write _ | .stage _ | .writeStage _ | .rename _ => False
  | .sync v => v.Fits g
  | _ => True

/-- What has become current can be counted on from. -/
def Bind.mayStep (g : Digests) (b : Bind) : Prop :=
  match b.op with
  | .sync v => v.Fits g
  | _ => True

variable {s : CapabilityDir} {l : List (π × Except BridgeError OwnerCapability)} {n : Nat}
  {b : Bind} {c v : Generation}

theorem Latest.eq_current (h : Latest g thread origin n s l) (hc : s.current = some (.whole c)) :
    c.number = n ∧ s.generations n = some (.whole c) ∧ c.controllerThreadId = thread ∧
      c.originContextId = origin ∧ g.proof c.ownerAttachment = c.attachmentProofSha256 := by
  rcases h.current with ⟨hnone, -⟩ | ⟨c', hcurrent, hfacts⟩
  · rw [hnone] at hc
    cases hc
  · rw [hcurrent] at hc
    cases hc
    exact hfacts

theorem Latest.setGeneration {k : Nat} {f : File Generation} (h : Latest g thread origin n s l)
    (hk : k ≠ n) : Latest g thread origin n (s.setGeneration k f) l := by
  refine ⟨?_, h.returned⟩
  rcases h.current with hnone | ⟨c, hcurrent, hnumber, hkept, hrest⟩
  · exact .inl hnone
  · exact .inr ⟨c, hcurrent, hnumber, (Function.update_of_ne hk.symm _ _).trans hkept, hrest⟩

/-- The number that follows, if it is not too large. -/
theorem number_go {b' : Bind} (h : b.number g n = .go b') :
    n ≤ maxGeneration ∧ b' = { b with op := .create (g.generation b.attachment n) } := by
  unfold Bind.number at h
  split at h
  next hn =>
    cases h
    exact ⟨hn.2, rfl⟩
  · cases h

theorem decode_number {cap : OwnerCapability} (h : g.decode c = .ok cap) :
    cap.number = c.number := by
  unfold Digests.decode at h
  split at h
  · cases h
    rfl
  · cases h

theorem quiet_returned {p : π} {r : Except BridgeError OwnerCapability}
    (h : s.Quiet g thread origin l)
    (hr : ∀ cap n, r = .ok cap → Latest g thread origin n s l → cap.number ≤ n) :
    s.Quiet g thread origin (l ++ [(p, r)]) := by
  obtain ⟨n, hclean, hfits⟩ := h
  refine ⟨n, ⟨⟨hclean.current, fun q cap hmem => ?_⟩, hclean.above, hclean.stages⟩, hfits⟩
  rcases List.mem_append.1 hmem with hmem | hmem
  · exact hclean.returned q cap hmem
  · rw [List.mem_singleton] at hmem
    exact hr cap n (Prod.mk.inj hmem).2.symm hclean.toLatest

theorem Bind.At.latest (h : b.At g thread origin s l) : ∃ n, Latest g thread origin n s l := by
  obtain ⟨attachment, pid, op⟩ := b
  obtain ⟨-, h⟩ := h
  cases op with
  | mkdir | readCurrent =>
    obtain ⟨n, hclean, -⟩ := h
    exact ⟨n, hclean.toLatest⟩
  | readGeneration c =>
    obtain ⟨⟨n, hclean, -⟩, -⟩ := h
    exact ⟨n, hclean.toLatest⟩
  | create v | sync v =>
    obtain ⟨n, hclean, -⟩ := h
    exact ⟨_, hclean.toLatest⟩
  | write v | stage v | writeStage v | rename v =>
    obtain ⟨n, hmid, -⟩ := h
    exact ⟨n, hmid.toLatest⟩

theorem Bind.At.quiet (h : b.At g thread origin s l) (hcrash : b.mayCrash g) :
    s.Quiet g thread origin l := by
  obtain ⟨attachment, pid, op⟩ := b
  obtain ⟨-, h⟩ := h
  cases op with
  | mkdir => exact h
  | readCurrent => exact h
  | readGeneration c => exact h.1
  | create v =>
    obtain ⟨n, hclean, hfits, -⟩ := h
    exact ⟨n, hclean, hfits⟩
  | write v => cases hcrash
  | stage v => cases hcrash
  | writeStage v => cases hcrash
  | rename v => cases hcrash
  | sync v =>
    obtain ⟨n, hclean, hcurrent, -⟩ := h
    refine ⟨n + 1, hclean, fun c hc => ?_⟩
    rw [hcurrent] at hc
    cases hc
    exact hcrash

/-! ### The files of a new generation -/

theorem Clean.create {pid : Nat} (h : Clean g thread origin n s l) :
    Midway g thread origin n .torn pid none (s.setGeneration (n + 1) .torn) l := by
  refine ⟨h.toLatest.setGeneration (Nat.succ_ne_self n), ?_, fun k hk => ?_, h.stages pid,
    fun q _ => h.stages q⟩
  · exact Function.update_self ..
  · exact (Function.update_of_ne (Nat.ne_of_gt hk) _ _).trans (h.above k (by omega))

theorem Midway.write {pid : Nat} {f f' : File Generation} {stage : Option (File Generation)}
    (h : Midway g thread origin n f pid stage s l) :
    Midway g thread origin n f' pid stage (s.setGeneration (n + 1) f') l := by
  refine ⟨h.toLatest.setGeneration (Nat.succ_ne_self n), ?_, fun k hk => ?_, h.staged, h.others⟩
  · exact Function.update_self ..
  · exact (Function.update_of_ne (Nat.ne_of_gt hk) _ _).trans (h.above k hk)

theorem Midway.setStage {pid : Nat} {f : File Generation} {stage stage' : Option (File Generation)}
    (h : Midway g thread origin n f pid stage s l) :
    Midway g thread origin n f pid stage' (s.setStage pid stage') l :=
  ⟨⟨h.current, h.returned⟩, h.created, h.above, Function.update_self ..,
    fun q hq => (Function.update_of_ne hq _ _).trans (h.others q hq)⟩

/-- The rename of the stage makes the new generation the current one. -/
theorem Midway.rename {a : Attachment} {pid : Nat}
    (h : Midway g thread origin n (.whole (g.generation a (n + 1))) pid
      (some (.whole (g.generation a (n + 1)))) s l)
    (hcontext : a.controllerThreadId = thread ∧ g.originOf a = origin) :
    Clean g thread origin (n + 1) { s.setStage pid none with current := s.stages pid } l := by
  refine ⟨⟨.inr ⟨_, h.staged, rfl, h.created, hcontext.1, hcontext.2, rfl⟩,
    fun p cap hcap => Nat.le_succ_of_le (h.returned p cap hcap)⟩, h.above, fun q => ?_⟩
  by_cases hq : q = pid
  · subst hq
    exact Function.update_self ..
  · exact (Function.update_of_ne hq _ _).trans (h.others q hq)

/-! ### Operations -/

theorem look_at {a : Attachment} {pid : Nat} {op : BindOp} {b' : Bind}
    (hcontext : a.controllerThreadId = thread ∧ g.originOf a = origin)
    (h : s.Quiet g thread origin l) (hcurrent : s.current = some (.whole c))
    (hgo : Bind.look g ⟨a, pid, op⟩ c = .go b') : b'.At g thread origin s l := by
  unfold Bind.look at hgo
  split at hgo
  · split at hgo
    next hsame =>
      cases hgo
      exact ⟨hcontext, h, hcurrent, hsame⟩
    · obtain ⟨-, rfl⟩ := number_go hgo
      obtain ⟨n, hclean, hfits⟩ := h
      exact ⟨hcontext, n, hclean, hfits, by rw [(hclean.eq_current hcurrent).1]⟩
  · cases hgo

theorem readCurrent_at {s' : CapabilityDir} {a : Attachment} {pid : Nat} {b' : Bind}
    (hcontext : a.controllerThreadId = thread ∧ g.originOf a = origin)
    (h : s.Quiet g thread origin l)
    (hstep : Bind.step g ⟨a, pid, .readCurrent⟩ s = (s', .go b')) : b'.At g thread origin s' l := by
  unfold Bind.step at hstep
  dsimp only at hstep
  split at hstep
  next hnone =>
    obtain ⟨rfl, hgo⟩ := Prod.mk.inj hstep
    obtain ⟨-, rfl⟩ := number_go hgo
    obtain ⟨n, hclean, hfits⟩ := h
    have hn : n = 0 := by
      rcases hclean.current with ⟨-, hn⟩ | ⟨c, hcurrent, -⟩
      · exact hn
      · rw [hnone] at hcurrent
        cases hcurrent
    exact ⟨hcontext, n, hclean, hfits, by rw [hn]⟩
  · split at hstep
    · cases hstep
    next c hread =>
      obtain ⟨rfl, hgo⟩ := Prod.mk.inj hstep
      exact look_at hcontext h (stableJson_ok.1 hread).1 hgo

/-- An operation that another one follows. -/
theorem Bind.At.go {s' : CapabilityDir} {b' : Bind} (h : b.At g thread origin s l)
    (hstep : b.step g s = (s', .go b')) : b'.At g thread origin s' l := by
  obtain ⟨attachment, pid, op⟩ := b
  obtain ⟨hcontext, h⟩ := h
  dsimp only at hcontext
  cases op with
  | mkdir =>
    cases hstep
    exact ⟨hcontext, h⟩
  | readCurrent => exact readCurrent_at hcontext h hstep
  | readGeneration c =>
    unfold Bind.step at hstep
    dsimp only at hstep
    split at hstep <;> cases hstep
  | create v =>
    dsimp only at h
    obtain ⟨n, hclean, -, rfl⟩ := h
    unfold Bind.step at hstep
    dsimp only at hstep
    split at hstep <;> cases hstep
    exact ⟨hcontext, n, hclean.create, rfl⟩
  | write v =>
    dsimp only at h
    obtain ⟨n, hmid, rfl⟩ := h
    cases hstep
    exact ⟨hcontext, n, hmid.write, rfl⟩
  | stage v =>
    dsimp only at h
    obtain ⟨n, hmid, rfl⟩ := h
    unfold Bind.step at hstep
    dsimp only at hstep
    split at hstep <;> cases hstep
    exact ⟨hcontext, n, hmid.setStage, rfl⟩
  | writeStage v =>
    dsimp only at h
    obtain ⟨n, hmid, rfl⟩ := h
    cases hstep
    exact ⟨hcontext, n, hmid.setStage, rfl⟩
  | rename v =>
    dsimp only at h
    obtain ⟨n, hmid, rfl⟩ := h
    cases hstep
    exact ⟨hcontext, n, hmid.rename hcontext, hmid.staged, rfl⟩
  | sync v => cases hstep

theorem quiet_error {p : π} {e : BridgeError} (h : s.Quiet g thread origin l) :
    s.Quiet g thread origin (l ++ [(p, .error e)]) :=
  quiet_returned h fun _ _ hr => by cases hr

theorem number_done {s s' : CapabilityDir} {k : Nat} {r : Except BridgeError OwnerCapability}
    (h : s.Quiet g thread origin l) (hstep : (s, b.number g k) = (s', .done r)) (p : π) :
    s'.Quiet g thread origin (l ++ [(p, r)]) := by
  obtain ⟨rfl, hr⟩ := Prod.mk.inj hstep
  unfold Bind.number at hr
  split at hr <;> cases hr
  exact quiet_error h

theorem look_done {s s' : CapabilityDir} {r : Except BridgeError OwnerCapability}
    (h : s.Quiet g thread origin l) (hstep : (s, b.look g c) = (s', .done r)) (p : π) :
    s'.Quiet g thread origin (l ++ [(p, r)]) := by
  unfold Bind.look at hstep
  split at hstep
  · split at hstep
    · cases hstep
    · exact number_done h hstep p
  · cases hstep
    exact quiet_error h

/-- An operation that is the last one. -/
theorem Bind.At.done {s' : CapabilityDir} {r : Except BridgeError OwnerCapability}
    (h : b.At g thread origin s l) (hmay : b.mayStep g)
    (hstep : b.step g s = (s', .done r)) (p : π) :
    s'.Quiet g thread origin (l ++ [(p, r)]) := by
  obtain ⟨attachment, pid, op⟩ := b
  obtain ⟨-, h⟩ := h
  unfold Bind.step at hstep
  cases op with
  | readCurrent =>
    dsimp only at h hstep
    split at hstep
    · exact number_done h hstep p
    · split at hstep
      · cases hstep
        exact quiet_error h
      · exact look_done h hstep p
  | readGeneration c =>
    dsimp only at h hstep
    obtain ⟨hquiet, hcurrent, -⟩ := h
    split at hstep
    · cases hstep
      exact quiet_error hquiet
    · cases hstep
      split
      · refine quiet_returned hquiet fun cap n hcap hlatest => ?_
        exact Nat.le_of_eq ((decode_number hcap).trans (hlatest.eq_current hcurrent).1)
      · exact quiet_error hquiet
  | create v =>
    dsimp only at h hstep
    obtain ⟨n, hclean, hfits, -⟩ := h
    split at hstep <;> cases hstep
    exact quiet_error ⟨n, hclean, hfits⟩
  | stage v =>
    dsimp only at h hstep
    obtain ⟨n, hmid, -⟩ := h
    rw [if_pos hmid.staged] at hstep
    cases hstep
  | sync v =>
    cases hstep
    obtain ⟨n, hclean, hcurrent, -⟩ := h
    have hquiet : s.Quiet g thread origin l := by
      refine ⟨n + 1, hclean, fun c hc => ?_⟩
      rw [hcurrent] at hc
      cases hc
      exact hmay
    refine quiet_returned hquiet fun cap k hcap hlatest => ?_
    exact Nat.le_of_eq ((decode_number hcap).trans (hlatest.eq_current hcurrent).1)
  | mkdir | write v | writeStage v | rename v => cases hstep

theorem bind_never_yields {s' : CapabilityDir} {b' : Bind} : b.step g s ≠ (s', .yield b') := by
  have hnumber {n : Nat} : b.number g n ≠ .yield b' := by
    unfold Bind.number
    split <;> nofun
  intro hstep
  unfold Bind.step at hstep
  split at hstep
  case h_2 =>
    split at hstep
    · exact hnumber (Prod.mk.inj hstep).2
    · split at hstep
      · cases hstep
      · have hlook := (Prod.mk.inj hstep).2
        unfold Bind.look at hlook
        split at hlook
        · split at hlook
          · cases hlook
          · exact hnumber hlook
        · cases hlook
  case h_3 => split at hstep <;> cases hstep
  case h_4 | h_6 => split at hstep <;> cases hstep
  all_goals cases hstep

/-- The files under `bind`, as long as no crash leaves one that the next generation needs. -/
def bindRule (g : Digests) (thread origin : Text) (π : Type) : Rule π (bind g thread origin) where
  waits b := (b.attachment.controllerThreadId = thread ∧ g.originOf b.attachment = origin) ∧
    b.op = .mkdir
  quiet s l := s.Quiet g thread origin l
  inside b s l := b.At g thread origin s l
  mayCrash b _ := b.mayCrash g
  mayStep b _ := b.mayStep g
  start call := ⟨⟨call.thread_eq, call.origin_eq⟩, rfl⟩
  enter := by
    rintro ⟨attachment, pid, op⟩ s l ⟨hcontext, rfl⟩ hquiet
    exact ⟨hcontext, hquiet⟩
  crash := Bind.At.quiet
  go hat _ hstep := hat.go hstep
  yield _ _ hstep := (bind_never_yields hstep).elim
  done hat hmay hstep p := hat.done hmay hstep p

/-! ## Later calls -/

/-- What a call of `bind` that nobody disturbs returns, and the files it leaves. -/
abbrev Binds (g : Digests) (thread origin : Text) (call : BindCall g thread origin)
    (s s' : CapabilityDir) (r : Except BridgeError OwnerCapability) : Prop :=
  (bind g thread origin).Returns ((bind g thread origin).start call) s s' r

/-- `current.json` is a generation file that is whole. -/
def CapabilityDir.CurrentWhole (s : CapabilityDir) : Prop :=
  ∀ f, s.current = some f → ∃ c, f = .whole c ∧ s.generations c.number = some (.whole c)

/-- `current.json` is whole, and a call succeeds when it has the lock: an attachment that is the
current one gets its capability, any other one gets a generation that is later than all that have
been returned. -/
def Serves (g : Digests) (thread origin : Text)
    (w : Crowd π CapabilityDir Bind (Except BridgeError OwnerCapability)) : Prop :=
  w.files.CurrentWhole ∧ (w.holder = none → ∀ call : BindCall g thread origin, ∃ s' cap,
    Binds g thread origin call w.files s' (.ok cap) ∧
    (∀ c, w.files.current = some (.whole c) → g.same c call.attachment →
      g.decode c = .ok cap ∧ s' = w.files) ∧
    ((∀ c, w.files.current = some (.whole c) → ¬ g.same c call.attachment) →
      (∀ p old, (p, .ok old) ∈ w.returned → old.number < cap.number) ∧
      s'.current = some (.whole (g.generation call.attachment cap.number))))

theorem decode_generation {a : Attachment} {k : Nat} :
    g.decode (g.generation a k) =
      .ok ⟨k, a.controllerThreadId, g.originOf a, a.originPid, a.originBirth, g.proof a⟩ :=
  if_pos rfl

/-- A new generation, where no file is in its way. -/
theorem creates {a : Attachment} {pid k : Nat} (hgeneration : s.generations k = none)
    (hstage : s.stages pid = none) :
    (bind g thread origin).Returns ⟨a, pid, .create (g.generation a k)⟩ s
      { ((((s.setGeneration k .torn).setGeneration k (.whole (g.generation a k))).setStage pid
          (some .torn)).setStage pid (some (.whole (g.generation a k)))).setStage pid none with
        current := some (.whole (g.generation a k)) }
      (g.decode (g.generation a k)) := by
  have hcreate : Bind.step g ⟨a, pid, .create (g.generation a k)⟩ s =
      (s.setGeneration k .torn, .go ⟨a, pid, .write (g.generation a k)⟩) :=
    if_pos hgeneration
  have hwrite : Bind.step g ⟨a, pid, .stage (g.generation a k)⟩
      ((s.setGeneration k .torn).setGeneration k (.whole (g.generation a k))) =
      (((s.setGeneration k .torn).setGeneration k (.whole (g.generation a k))).setStage pid
        (some .torn), .go ⟨a, pid, .writeStage (g.generation a k)⟩) :=
    if_pos hstage
  have hrename {s : CapabilityDir} {f : Option (File Generation)} :
    (s.setStage pid f).stages pid = f :=
    Function.update_self ..
  refine (Sections.returns_go hcreate).2 ((Sections.returns_go rfl).2
    ((Sections.returns_go hwrite).2 ((Sections.returns_go rfl).2 ((Sections.returns_go rfl).2
      ((Sections.returns_done rfl).2 ⟨?_, rfl⟩)))))
  rw [hrename]

theorem Latest.currentWhole (h : Latest g thread origin n s l) : s.CurrentWhole := by
  intro f hf
  rcases h.current with ⟨hnone, -⟩ | ⟨c, hcurrent, hnumber, hkept, -⟩
  · rw [hnone] at hf
    cases hf
  · rw [hcurrent] at hf
    cases hf
    exact ⟨c, rfl, hnumber ▸ hkept⟩

/-- The number of a new generation is not too large, so the generation is made. -/
theorem number_served {returned : List (π × Except BridgeError OwnerCapability)}
    {k : Nat} (call : BindCall g thread origin) (h : Clean g thread origin n s returned)
    (hk : n < k) (hmax : k ≤ maxGeneration)
    (hread : Bind.step g ⟨call.attachment, call.pid, .readCurrent⟩ s =
      (s, (⟨call.attachment, call.pid, .readCurrent⟩ : Bind).number g k)) :
    ∃ s' cap, Binds g thread origin call s s' (.ok cap) ∧
      (∀ p old, (p, .ok old) ∈ returned → old.number < cap.number) ∧
      s'.current = some (.whole (g.generation call.attachment cap.number)) := by
  obtain ⟨a, pid, hthread, horigin⟩ := call
  have hnumber : (⟨a, pid, .readCurrent⟩ : Bind).number g k =
      .go ⟨a, pid, .create (g.generation a k)⟩ :=
    if_pos ⟨by omega, hmax⟩
  dsimp only at hread
  rw [hnumber] at hread
  have hcreates := @creates g thread origin _ a _ _ (h.above k hk) (h.stages pid)
  rw [decode_generation] at hcreates
  exact ⟨_, _, (Sections.returns_go rfl).2 ((Sections.returns_go hread).2 hcreates),
    fun p old hold => Nat.lt_of_le_of_lt (h.returned p old hold) hk, rfl⟩

/-- The attachment of the current generation gets its capability, and no file changes. -/
theorem current_served {call : BindCall g thread origin} (hsize : g.size c ≤ maxJson)
    (hkept : s.generations c.number = some (.whole c))
    (hproof : g.proof c.ownerAttachment = c.attachmentProofSha256)
    (hread : Bind.step g ⟨call.attachment, call.pid, .readCurrent⟩ s =
      (s, .go ⟨call.attachment, call.pid, .readGeneration c⟩)) :
    ∃ cap, Binds g thread origin call s s (.ok cap) ∧ g.decode c = .ok cap := by
  have hgeneration : Bind.step g ⟨call.attachment, call.pid, .readGeneration c⟩ s =
      (s, .done (g.decode c)) := by
    have hjson : stableJson g.size (s.generations c.number) = .ok c :=
      stableJson_ok.2 ⟨hkept, hsize⟩
    unfold Bind.step
    dsimp only
    rw [hjson]
    dsimp only
    rw [if_pos rfl]
  have hdecode : g.decode c = .ok ⟨c.number, c.controllerThreadId, c.originContextId,
      c.originPid, c.originBirth, c.attachmentProofSha256⟩ := if_pos hproof
  exact ⟨_, (Sections.returns_go rfl).2 ((Sections.returns_go hread).2
    ((Sections.returns_done hgeneration).2 ⟨rfl, hdecode⟩)), hdecode⟩

theorem serves_of_quiet {w : Crowd π CapabilityDir Bind (Except BridgeError OwnerCapability)}
    (h : w.files.Quiet g thread origin w.returned) : Serves g thread origin w := by
  obtain ⟨n, hclean, hfits⟩ := h
  refine ⟨hclean.currentWhole, fun _ call => ?_⟩
  rcases hclean.current with ⟨hnone, hn⟩ | ⟨c, hcurrent, hnumber, hkept, hc, ho, hproof⟩
  · obtain ⟨s', cap, hbinds, hnew⟩ :=
      number_served (k := 1) call hclean (by omega) (by decide) (if_pos hnone)
    refine ⟨s', cap, hbinds, fun c hc => ?_, fun _ => hnew⟩
    rw [hnone] at hc
    cases hc
  · obtain ⟨hsize, hmax⟩ := hfits c hcurrent
    have hread : Bind.step g ⟨call.attachment, call.pid, .readCurrent⟩ w.files =
        (w.files, (⟨call.attachment, call.pid, .readCurrent⟩ : Bind).look g c) := by
      have hjson : stableJson g.size w.files.current = .ok c := stableJson_ok.2 ⟨hcurrent, hsize⟩
      unfold Bind.step
      dsimp only
      rw [if_neg (by rw [hcurrent]; nofun), hjson]
    have hcontext : c.controllerThreadId = call.attachment.controllerThreadId ∧
        c.originContextId = g.originOf call.attachment :=
      ⟨hc.trans call.thread_eq.symm, ho.trans call.origin_eq.symm⟩
    unfold Bind.look at hread
    rw [if_pos hcontext] at hread
    by_cases hsame : g.same c call.attachment
    · rw [if_pos hsame] at hread
      obtain ⟨cap, hbinds, hdecode⟩ := current_served hsize (hnumber ▸ hkept) hproof hread
      refine ⟨w.files, cap, hbinds, fun c' hc' _ => ?_,
        fun hother => (hother c hcurrent hsame).elim⟩
      cases hcurrent.symm.trans hc'
      exact ⟨hdecode, rfl⟩
    · rw [if_neg hsame] at hread
      obtain ⟨s', cap, hbinds, hnew⟩ :=
        number_served (k := c.number + 1) call hclean (by omega) hmax hread
      refine ⟨s', cap, hbinds, fun c' hc' hsame' => ?_, fun _ => hnew⟩
      cases hcurrent.symm.trans hc'
      exact (hsame hsame').elim

/-- An attachment that is not the current one. -/
theorem exists_other (call : BindCall g thread origin) (s : CapabilityDir) :
    ∃ other : BindCall g thread origin, ∀ c, s.current = some (.whole c) →
      ¬ g.same c other.attachment := by
  cases hcurrent : s.current with
  | none => exact ⟨call, nofun⟩
  | some f =>
    cases f with
    | torn => exact ⟨call, nofun⟩
    | whole c =>
      refine ⟨⟨{ call.attachment with originPid := c.originPid + 1 }, call.pid, call.thread_eq,
        call.origin_eq⟩, fun c' hc' hsame => ?_⟩
      cases hc'
      have hpid : c.originPid = c.originPid + 1 := hsame.1
      omega

/-- What a call with another attachment needs. -/
theorem binds_other {call : BindCall g thread origin} {s' : CapabilityDir} {cap : OwnerCapability}
    (hlatest : Latest g thread origin n s l)
    (hother : ∀ c, s.current = some (.whole c) → ¬ g.same c call.attachment)
    (h : Binds g thread origin call s s' (.ok cap)) :
    (∀ c, s.current = some (.whole c) → c.Fits g) ∧ s.generations (n + 1) = none := by
  obtain ⟨a, pid, hthread, horigin⟩ := call
  have hread := (Sections.returns_go rfl).1 h
  have hfails {b : Bind} {e : BridgeError} (hstep : b.step g s = (s, .done (.error e)))
      (hreturns : (bind g thread origin).Returns b s s' (.ok cap)) : False := by
    cases ((Sections.returns_done hstep).1 hreturns).2
  have hnumber {k : Nat} (hstep : Bind.step g ⟨a, pid, .readCurrent⟩ s =
      (s, (⟨a, pid, .readCurrent⟩ : Bind).number g k)) :
      k ≤ maxGeneration ∧ s.generations k = none := by
    unfold Bind.number at hstep
    split at hstep
    next hk =>
      have hcreate := (Sections.returns_go hstep).1 hread
      refine ⟨hk.2, ?_⟩
      by_contra hfile
      have hstep : Bind.step g ⟨a, pid, .create (g.generation a k)⟩ s =
          (s, .done (.error .ledgerWrite)) :=
        if_neg hfile
      exact hfails hstep hcreate
    · exact (hfails hstep hread).elim
  rcases hlatest.current with ⟨hnone, rfl⟩ | ⟨c, hcurrent, hn, -⟩
  · obtain ⟨-, hfile⟩ := hnumber (k := 1) (if_pos hnone)
    exact ⟨fun c hc => (by rw [hnone] at hc; cases hc), hfile⟩
  · have hsome : s.current ≠ none := by simp [hcurrent]
    by_cases hsize : g.size c ≤ maxJson
    · have hjson : stableJson g.size s.current = .ok c := stableJson_ok.2 ⟨hcurrent, hsize⟩
      have hstep : Bind.step g ⟨a, pid, .readCurrent⟩ s =
          (s, (⟨a, pid, .readCurrent⟩ : Bind).look g c) := by
        simp only [Bind.step, if_neg hsome, hjson]
      unfold Bind.look at hstep
      split at hstep
      · rw [if_neg (hother c hcurrent)] at hstep
        obtain ⟨hmax, hfile⟩ := hnumber hstep
        refine ⟨fun c' hc' => ?_, hn ▸ hfile⟩
        rw [hcurrent] at hc'
        cases hc'
        exact ⟨hsize, hmax⟩
      · exact (hfails hstep hread).elim
    · have hjson : stableJson g.size s.current = .error .ledgerFile := by
        rw [hcurrent]
        exact if_neg hsize
      have hstep : Bind.step g ⟨a, pid, .readCurrent⟩ s = (s, .done (.error .ledgerFile)) := by
        simp only [Bind.step, if_neg hsome, hjson]
      exact (hfails hstep hread).elim

/-- A process that is inside `bind` may die, or go on, if what is left can be served. -/
theorem may_of_serves {w w' : Crowd π CapabilityDir Bind (Except BridgeError OwnerCapability)}
    (hb : b.At g thread origin w.files w.returned) (hholder : w'.holder = none)
    (hfiles : w'.files = w.files) (hserves : Serves g thread origin w') : b.mayCrash g := by
  let call : BindCall g thread origin := ⟨b.attachment, b.pid, hb.1.1, hb.1.2⟩
  have hother {n : Nat} (hlatest : Latest g thread origin n w.files w.returned) :
      (∀ c, w.files.current = some (.whole c) → c.Fits g) ∧ w.files.generations (n + 1) = none := by
    obtain ⟨other, hother⟩ := exists_other call w.files
    obtain ⟨s', cap, hbinds, -⟩ := hserves.2 hholder other
    rw [hfiles] at hbinds
    exact binds_other hlatest hother hbinds
  obtain ⟨attachment, pid, op⟩ := b
  obtain ⟨-, hat⟩ := hb
  have horphan {n : Nat} {f : File Generation} {stage : Option (File Generation)}
      (hmid : Midway g thread origin n f pid stage w.files w.returned) : False := by
    have hnone := (hother hmid.toLatest).2
    rw [hmid.created] at hnone
    cases hnone
  cases op with
  | mkdir | readCurrent | readGeneration | create => trivial
  | write v =>
    obtain ⟨n, hmid, -⟩ := hat
    exact horphan hmid
  | stage v =>
    obtain ⟨n, hmid, -⟩ := hat
    exact horphan hmid
  | writeStage v =>
    obtain ⟨n, hmid, -⟩ := hat
    exact horphan hmid
  | rename v =>
    obtain ⟨n, hmid, -⟩ := hat
    exact horphan hmid
  | sync v =>
    obtain ⟨n, hclean, hcurrent, -⟩ := hat
    exact (hother hclean.toLatest).1 v hcurrent

/-- Exactly as long as no process dies between the creation of a generation and the rename of
`current.json`, and what has become current can be read and counted on from, `current.json` is
whole and every call succeeds: the current attachment gets its capability, any other one a
generation later than all before. -/
theorem generations_survive_iff [DecidableEq π] (g : Digests) (thread origin : Text)
    (acts : List (Act π (BindCall g thread origin))) :
    (∀ before, before <+: acts →
      Serves g thread origin (run (bind g thread origin).next (.quiet {}) before)) ↔
    AllSteps (bind g thread origin).next (bindRule g thread origin π).Allows (.quiet {}) acts := by
  have hstart : (bindRule g thread origin π).Holds (.quiet {}) :=
    Rule.holds_quiet _ ⟨0, ⟨⟨.inl ⟨rfl, rfl⟩, nofun⟩, fun _ _ => rfl, fun _ => rfl⟩, nofun⟩
  refine prefixes_iff_allSteps (K := (bindRule g thread origin π).Holds) hstart
    (fun w hw => ?_) (fun w act hw hact => hw.next hact) fun w act hw hserves => ?_
  · cases hholder : w.holder with
    | none => exact serves_of_quiet (hw.quiet hholder)
    | some at' =>
      obtain ⟨p, b⟩ := at'
      obtain ⟨n, hlatest⟩ := (hw.inside hholder).latest
      exact ⟨hlatest.currentWhole, fun hnone => by rw [hholder] at hnone; cases hnone⟩
  · cases act with
    | call | acquire => trivial
    | crash p =>
      intro b hholder
      refine @may_of_serves g thread origin _ _ w ((bind g thread origin).next w (.crash p))
        (hw.inside hholder) ?_ rfl hserves
      simp [Sections.next, hholder]
    | operate =>
      intro p b hholder
      have hat := hw.inside hholder
      obtain ⟨attachment, pid, op⟩ := b
      cases op with
      | sync v =>
        have hnext : (bind g thread origin).next w .operate =
            { w with holder := none, returned := w.returned ++ [(p, g.decode v)] } := by
          unfold Sections.next
          rw [hholder]
          rfl
        exact @may_of_serves g thread origin _ _ w ((bind g thread origin).next w .operate) hat
          (by rw [hnext]) (by rw [hnext]) hserves
      | mkdir | readCurrent | readGeneration | create | write | stage | writeStage | rename =>
        trivial

end

/-- Whatever the digests are, a process that dies right after it has created the first generation
leaves a directory in which no call succeeds. -/
theorem crash_blocks_generations :
    ¬ ∃ g : Digests, ∀ (thread origin : Text) (acts : List (Act Nat (BindCall g thread origin))),
      Serves g thread origin (run (bind g thread origin).next (.quiet {}) acts) := by
  rintro ⟨g, h⟩
  let call : BindCall g (text "t") (g.originOf toyAttachment) := ⟨toyAttachment, 100, rfl, rfl⟩
  have hserves := h _ _ [.call 0 call, .acquire 0, .operate, .operate, .operate, .crash 0]
  have hfiles : (run (bind g (text "t") (g.originOf toyAttachment)).next (Crowd.quiet {})
      [.call 0 call, .acquire 0, .operate, .operate, .operate, .crash 0]).files =
      CapabilityDir.setGeneration {} 1 .torn :=
    rfl
  obtain ⟨s', cap, hbinds, -⟩ := hserves.2 rfl call
  rw [hfiles] at hbinds
  have hlatest : Latest g (text "t") (g.originOf toyAttachment) 0
      (CapabilityDir.setGeneration {} 1 .torn) ([] : List (Nat × _)) :=
    ⟨.inl ⟨rfl, rfl⟩, nofun⟩
  have hfile := (binds_other hlatest nofun hbinds).2
  cases hfile

end Orchestrator.Bridge
