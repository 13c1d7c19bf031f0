import Orchestrator.Fleet.Secrets
import Orchestrator.Store.Queries

/-!
# Sessions of Hosts

`handleHost` takes a connection from the `HostHello` to the table of sessions, and marks the
Host offline when the session that is in the table ends. Connections, requests of owners and
the sweep that retires Hosts run side by side; every call of the store is a step of its own.
-/
namespace Orchestrator.Coordinator
open Library Store

/-- Where `handleHost` is with a connection. -/
inductive Stage where
  | greeted
  /-- `HostBinding` has told of active segments and another process. -/
  | bound (pid : Int) (birth : String)
  | cleared
  | registered (hostId : String)
  | reconciling (hostId : String)
  /-- The session is in the table; `reconciled` is set by `FinishHostReconcile`. -/
  | serving (hostId : String) (reconciled : Bool)
  /-- The deferred function has taken its session out of the table, and is to mark the Host. -/
  | leaving (hostId : String)
  | closed
  deriving DecidableEq, Repr

/-- The Host that a connection has registered. -/
def Stage.host : Stage → Option String
  | .registered hostId | .reconciling hostId | .serving hostId _ | .leaving hostId => some hostId
  | .greeted | .bound _ _ | .cleared | .closed => none

structure Connection where
  hello : HostHello
  stage : Stage := .greeted

/-- A call of `retireCompletedHosts`: the ids that are left, and the one it has retired whose
session is still to be dropped. -/
structure Retiring where
  ids : List String := []
  retired : Option String := none
  deriving DecidableEq, Repr

/-- `hosts` is the table of sessions, each the connection that it is on. -/
structure Sessions where
  store : State
  hosts : String → Option Nat := fun _ => none
  connections : Nat → Option Connection := fun _ => none
  retiring : Nat → Retiring := fun _ => {}

/-- What `handleHost` does next, in the store and for the connection; `birth` is what
`process.Birth` says of the process that is bound. -/
def Connection.next (conn : Connection) (d : DB) (epoch : Nat) (s : State)
    (birth : Option String) : State × Stage :=
  match conn.stage with
  | .greeted => (s, match s.hostBinding conn.hello.launchId with
    | some b =>
      if (b.pid ≠ conn.hello.pid ∨ b.birth ≠ conn.hello.birth) ∧ 0 < b.active then
        .bound b.pid b.birth
      else .cleared
    | none => .cleared)
  | .bound pid recorded =>
    if birth = some recorded then (s, .closed)
    else match authorizeHostRebind s conn.hello.launchId pid recorded with
      | .ok (s', ()) => (s', .cleared)
      | .error _ => (s, .closed)
  | .cleared => match d.registerHost s conn.hello epoch with
    | .ok (s', hostId) => (s', .registered hostId)
    | .error _ => (s, .closed)
  | .registered hostId => (d.step s (.beginHostReconcile hostId), .reconciling hostId)
  | .reconciling hostId => (s, .serving hostId false)
  | .serving hostId false => (d.step s (.finishHostReconcile hostId), .serving hostId true)
  | .serving hostId true => (s, .serving hostId true)
  | .leaving hostId => (d.step s (.markHostOffline hostId epoch), .closed)
  | .closed => (s, .closed)

/-- Where `handleHost` is with a process that says `hello`, `n` steps on, if nothing else is done
meanwhile. -/
def greeted (d : DB) (epoch : Nat) (s : State) (hello : HostHello) (birth : Option String) :
    Nat → State × Stage
  | 0 => (s, .greeted)
  | n + 1 => Connection.next ⟨hello, (greeted d epoch s hello birth n).2⟩ d epoch
      (greeted d epoch s hello birth n).1 birth

/-- `handleHost` registers whoever gives the secrets of the launch, also in the place of another
process, if that one is gone. -/
def CanTakeOver (d : DB) (epoch : Nat) (s : State) (hostId : String) : Prop :=
  ∃ h ∈ s.hosts, h.id = hostId ∧ ∀ hello birth, d.Admits s hello epoch →
    hello.launchId = h.launchId → birth ≠ some h.birth →
      ∃ n, (greeted d epoch s hello birth n).2.host = some hostId

/-- The operations that only connections, the sweep and the start of a coordinator make. -/
def hosting : Op → Bool
  | .beginCoordinatorEpoch _ | .registerHost _ _ | .authorizeHostRebind _ _ _
  | .beginHostReconcile _ | .finishHostReconcile _ | .markHostOffline _ _ | .retireHost _ => true
  | _ => false

namespace Sessions

inductive Action where
  | accept (c : Nat) (hello : HostHello)
  | advance (c : Nat) (birth : Option String)
  /-- `handleHost` returns, for whatever reason, and its deferred function looks at the table. -/
  | leave (c : Nat)
  | retirableHosts (k : Nat)
  | retireHost (k : Nat)
  | drop (k : Nat)
  /-- Any other operation of the store. -/
  | request (op : Op)

variable (d : DB) (epoch : Nat)

def put (s : Sessions) (c : Nat) (conn : Connection) : Sessions :=
  { s with connections := Function.update s.connections c (some conn) }

/-- The table after a connection has advanced. -/
def entered (s : Sessions) (c : Nat) (stage : Stage) : String → Option Nat :=
  match stage with
  | .reconciling hostId => Function.update s.hosts hostId (some c)
  | _ => s.hosts

def step (s : Sessions) : Action → Sessions
  | .accept c hello => if (s.connections c).isNone then s.put c { hello := hello } else s
  | .advance c birth => match s.connections c with
    | some conn =>
      { s.put c { conn with stage := (conn.next d epoch s.store birth).2 } with
        store := (conn.next d epoch s.store birth).1
        hosts := s.entered c conn.stage }
    | none => s
  | .leave c => match s.connections c with
    | some ⟨hello, .serving hostId _⟩ =>
      if s.hosts hostId = some c then
        { s.put c ⟨hello, .leaving hostId⟩ with hosts := Function.update s.hosts hostId none }
      else s.put c ⟨hello, .closed⟩
    | _ => s
  | .retirableHosts k =>
    if s.retiring k = {} then
      { s with retiring := Function.update s.retiring k { ids := Store.retirableHosts s.store } }
    else s
  | .retireHost k => match s.retiring k with
    | ⟨hostId :: ids, none⟩ =>
      { s with
        store := d.step s.store (.retireHost hostId)
        retiring := Function.update s.retiring k ⟨ids, some hostId⟩ }
    | _ => s
  | .drop k => match s.retiring k with
    | ⟨ids, some hostId⟩ =>
      { s with
        hosts := Function.update s.hosts hostId none
        retiring := Function.update s.retiring k ⟨ids, none⟩ }
    | _ => s
  | .request op => if hosting op = true then s else { s with store := d.step s.store op }

def run (s : Sessions) (actions : List Action) : Sessions := Library.run (step d epoch) s actions

/-- A coordinator that has begun its epoch. -/
def start (store : State) : Sessions := { store := d.step store (.beginCoordinatorEpoch epoch) }

end Sessions

/-! ## One epoch -/

/-- The operations of an epoch that has begun. -/
def within (epoch : Nat) : Op → Prop
  | .beginCoordinatorEpoch e | .registerHost _ e => e = epoch
  | _ => True

section Epoch
variable {d : DB} {epoch : Nat} {s : State} {conn : Connection} {birth : Option String}
  {hostId : String}

theorem within_of_not_hosting {op : Op} (h : ¬ hosting op = true) : within epoch op := by
  cases op <;> trivial

/-- `handleHost` advances without the store, or by one operation. -/
theorem Connection.next_store (conn : Connection) (d : DB) (epoch : Nat) (s : State)
    (birth : Option String) : (conn.next d epoch s birth).1 = s ∨
    ∃ op, within epoch op ∧ (∀ id, op ≠ .retireHost id) ∧
      (conn.next d epoch s birth).1 = d.step s op := by
  obtain ⟨hello, stage⟩ := conn
  cases stage with
  | bound pid recorded =>
    simp only [next]
    split
    · exact .inl rfl
    · split
      · rename_i s' hx
        have hexec : d.exec s (.authorizeHostRebind hello.launchId pid recorded) = .ok s' :=
          committed_ok.mpr ⟨(), hx⟩
        exact .inr ⟨.authorizeHostRebind _ _ _, trivial, fun _ h => (by cases h),
          (step_of_exec hexec).symm⟩
      · exact .inl rfl
  | cleared =>
    simp only [next]
    split
    · rename_i s' hostId hx
      have hexec : d.exec s (.registerHost hello epoch) = .ok s' := committed_ok.mpr ⟨hostId, hx⟩
      exact .inr ⟨.registerHost hello epoch, rfl, fun _ h => (by cases h),
        (step_of_exec hexec).symm⟩
    · exact .inl rfl
  | registered hostId =>
    exact .inr ⟨.beginHostReconcile hostId, trivial, fun _ h => (by cases h), rfl⟩
  | serving hostId reconciled =>
    cases reconciled with
    | false => exact .inr ⟨.finishHostReconcile hostId, trivial, fun _ h => (by cases h), rfl⟩
    | true => exact .inl rfl
  | leaving hostId =>
    exact .inr ⟨.markHostOffline hostId epoch, trivial, fun _ h => (by cases h), rfl⟩
  | greeted | reconciling | closed => exact .inl rfl

/-- A connection gets its Host from `RegisterHost`, and has no other afterwards. -/
theorem Connection.next_host (h : (conn.next d epoch s birth).2.host = some hostId) :
    conn.stage.host = some hostId ∨ conn.stage = .cleared ∧
      d.registerHost s conn.hello epoch = .ok ((conn.next d epoch s birth).1, hostId) := by
  obtain ⟨hello, stage⟩ := conn
  cases stage with
  | greeted =>
    simp only [next] at h
    split at h
    · split at h <;> cases h
    · cases h
  | bound pid recorded =>
    simp only [next] at h
    split at h
    · cases h
    · split at h <;> cases h
  | cleared =>
    simp only [next] at h ⊢
    split at h
    · rename_i s' id hx
      cases h
      exact .inr ⟨trivial, hx⟩
    · cases h
  | registered id => exact .inl h
  | reconciling id => exact .inl h
  | serving id reconciled => cases reconciled <;> exact .inl h
  | leaving id => cases h
  | closed => cases h

/-! ### Taking over -/

theorem hostBinding_eq {h : RuntimeHost} (hs : Seated s) (hm : h ∈ s.hosts) :
    s.hostBinding h.launchId = some ⟨h.id, h.pid, h.birth, s.hostActive h.id⟩ := by
  have hfind : s.hosts.rows.find? (fun k => k.launchId = h.launchId) = some h := by
    cases hf : s.hosts.rows.find? (fun k => k.launchId = h.launchId) with
    | none => simpa using List.find?_eq_none.mp hf h (Table.mem_def.mp hm)
    | some k =>
      have hk : k ∈ s.hosts := Table.mem_def.mpr (List.mem_of_find?_eq_some hf)
      have hlaunch : k.launchId = h.launchId := by simpa using List.find?_some hf
      rw [Table.eq_of_key hk hm (by rw [← hs.launched k hk, hlaunch, hs.launched h hm])]
  rw [State.hostBinding, hfind]
  rfl

/-- A Host that is not offline is not authorized for another process. -/
theorem authorizeHostRebind_refused {h : RuntimeHost} (hs : Seated s) (hm : h ∈ s.hosts)
    (hoff : h.status ≠ .offline) :
    authorizeHostRebind s h.launchId h.pid h.birth = .error .hostRejected := by
  have hnone : ¬ s.hosts.count (fun k => k.offlineAs h.launchId h.pid h.birth) = 1 := by
    intro hone
    obtain ⟨k, hk, hp⟩ := Table.count_pos.mp (hone ▸ Nat.one_pos)
    simp only [RuntimeHost.offlineAs, Bool.and_eq_true, decide_eq_true_eq] at hp
    obtain rfl := Table.eq_of_key hk hm (by
      rw [← hs.launched k hk, hp.1.1.1, hs.launched h hm])
    exact hoff hp.2
  exact require_bind_error.mpr (.inl ⟨hnone, rfl⟩)

/-- Where `handleHost` is after a step: it asks for a rebind only if another process is bound and
the Host has active segments. -/
theorem greeted_one {h : RuntimeHost} {hello : HostHello} (hs : Seated s) (hm : h ∈ s.hosts)
    (hid : hello.launchId = h.launchId) :
    greeted d epoch s hello birth 1 =
      (s, if (h.pid ≠ hello.pid ∨ h.birth ≠ hello.birth) ∧ 0 < s.hostActive h.id then
        .bound h.pid h.birth else .cleared) := by
  simp only [greeted, Connection.next, hid, hostBinding_eq hs hm]

/-- A process is registered in the place of another if the Host is offline or has no active
segments. -/
theorem greeted_registered {h : RuntimeHost} {hello : HostHello} (hs : Seated s)
    (hm : h ∈ s.hosts) (hopen : h.status = .offline ∨ s.hostActive h.id = 0)
    (ha : d.Admits s hello epoch) (hid : hello.launchId = h.launchId)
    (hgone : birth ≠ some h.birth) :
    ∃ n, (greeted d epoch s hello birth n).2.host = some h.id := by
  by_cases hother : (h.pid ≠ hello.pid ∨ h.birth ≠ hello.birth) ∧ 0 < s.hostActive h.id
  · have hoff : h.status = .offline := hopen.resolve_right (Nat.pos_iff_ne_zero.mp hother.2)
    have htake : d.Replaceable s h.id epoch := hs.replaceable hm hoff
    obtain ⟨k, hk, hkid, -, htake⟩ := htake
    obtain rfl := Table.eq_of_key hk hm hkid
    obtain ⟨s₁, s₂, hauthorized, hregistered⟩ := htake hello ha hid
    refine ⟨3, ?_⟩
    rw [greeted, greeted, greeted_one hs hm hid, if_pos hother]
    simp only [Connection.next, if_neg hgone, hid, hauthorized, hregistered, Stage.host]
  · have hmay : (h.pid = hello.pid ∧ h.birth = hello.birth) ∨ s.hostActive h.id = 0 ∨
        h.status = .reconcileAuthorized := by
      by_cases hsame : h.pid = hello.pid ∧ h.birth = hello.birth
      · exact .inl hsame
      · have hnone : ¬ 0 < s.hostActive h.id := fun hpos =>
          hother ⟨not_and_or.mp hsame, hpos⟩
        exact .inr (.inl (by omega))
    obtain ⟨s', hregistered⟩ := hs.registers hm ha hid hmay
    refine ⟨2, ?_⟩
    rw [greeted, greeted_one hs hm hid, if_neg hother]
    simp only [Connection.next, hregistered, Stage.host]

/-- Another process is refused while the Host has active segments and is not offline. -/
theorem greeted_refused {h : RuntimeHost} {hello : HostHello} (hs : Seated s) (hm : h ∈ s.hosts)
    (hoff : h.status ≠ .offline) (hact : s.hostActive h.id ≠ 0)
    (hid : hello.launchId = h.launchId) (hother : hello.pid ≠ h.pid)
    (hgone : birth ≠ some h.birth) (n : Nat) :
    (greeted d epoch s hello birth n).2.host = none := by
  have hone : greeted d epoch s hello birth 1 = (s, .bound h.pid h.birth) := by
    rw [greeted_one hs hm hid, if_pos ⟨.inl hother.symm, Nat.pos_of_ne_zero hact⟩]
  have hclosed : ∀ n, greeted d epoch s hello birth (n + 2) = (s, .closed) := by
    intro n
    induction n with
    | zero =>
      rw [greeted, hone]
      simp only [Connection.next, if_neg hgone, hid, authorizeHostRebind_refused hs hm hoff]
    | succ n ih => rw [greeted, ih]; rfl
  rcases n with _ | _ | n
  · rfl
  · rw [hone]
    rfl
  · rw [hclosed]
    rfl

theorem canTakeOver_iff (hs : Seated s) (hm : d.Manned s) (he : epoch ≠ 0) :
    CanTakeOver d epoch s hostId ↔
      ∃ h ∈ s.hosts, h.id = hostId ∧ (h.status = .offline ∨ s.hostActive hostId = 0) := by
  constructor
  · rintro ⟨h, hh, rfl, htake⟩
    refine ⟨h, hh, rfl, ?_⟩
    by_contra hnot
    rw [not_or] at hnot
    obtain ⟨hello, ha, hid, hother⟩ := hm.admits hs hh he
    obtain ⟨n, hn⟩ := htake hello none ha hid (by simp)
    rw [greeted_refused hs hh hnot.1 hnot.2 hid hother (by simp) n] at hn
    cases hn
  · rintro ⟨h, hh, rfl, hopen⟩
    exact ⟨h, hh, rfl, fun hello birth ha hid hgone =>
      greeted_registered hs hh hopen ha hid hgone⟩

/-- The Hosts of an epoch stay in it. -/
theorem current_step {op : Op} (hw : within epoch op)
    (hall : ∀ h ∈ s.hosts, h.coordinatorEpoch = epoch) :
    ∀ h ∈ (d.step s op).hosts, h.coordinatorEpoch = epoch :=
  step_induct (P := fun s' => ∀ h ∈ s'.hosts, h.coordinatorEpoch = epoch) hall fun _ hx =>
    (exec_enlists hx).epochs (fun e he => by subst he; exact hw)
      (fun hello e he => by subst he; exact hw) hall

theorem hosts_step {op : Op} {h : RuntimeHost} (hm : h ∈ s.hosts) :
    ∃ k ∈ (d.step s op).hosts, k.id = h.id :=
  step_induct (P := fun s' => ∃ k ∈ s'.hosts, k.id = h.id) ⟨h, hm, rfl⟩ fun _ hx =>
    (exec_enlists hx).host_kept hm

/-- Every Host is offline once an epoch has begun. -/
theorem begun (he : epoch ≠ 0) {h : RuntimeHost}
    (hm : h ∈ (d.step s (.beginCoordinatorEpoch epoch)).hosts) :
    h.status = .offline ∧ h.coordinatorEpoch = epoch := by
  have hx : d.exec s (.beginCoordinatorEpoch epoch) =
      committed (beginCoordinatorEpoch s epoch) := rfl
  rw [beginCoordinatorEpoch, require_pos he, ok_bind] at hx
  rw [step_of_exec (hx.trans rfl)] at hm
  obtain ⟨k, -, rfl⟩ := (Table.mem_update (h := by intro _; rfl)).mp hm
  rw [Table.patch_pos rfl]
  exact ⟨rfl, rfl⟩

/-- Whatever the coordinators before have left, a new one can replace every Host. -/
theorem restart_replaceable {limits : ConcurrencyLimits} (hr : d.Reachable limits s)
    (he : epoch ≠ 0) {h : RuntimeHost}
    (hm : h ∈ (d.step s (.beginCoordinatorEpoch epoch)).hosts) :
    d.Replaceable (d.step s (.beginCoordinatorEpoch epoch)) h.id epoch :=
  (seated_of_reachable (reachable_step _ hr)).replaceable hm (begun he hm).1

end Epoch

def toyStore : State := toyDB.run (State.fresh {}) (toyStart [toyTask "a" 1 []] ++ [toyClaim 11])

theorem toyStore_reachable : toyDB.Reachable {} toyStore := ⟨_, rfl⟩

/-- The coordinator is gone while a segment is active. -/
theorem toy_restart_replaceable :
    ∃ h ∈ (toyDB.step toyStore (.beginCoordinatorEpoch 2)).hosts,
      (toyDB.step toyStore (.beginCoordinatorEpoch 2)).hostActive h.id = 1 ∧
      toyDB.Replaceable (toyDB.step toyStore (.beginCoordinatorEpoch 2)) h.id 2 := by
  have hfacts : ∃ h ∈ (toyDB.step toyStore (.beginCoordinatorEpoch 2)).hosts.rows,
      (toyDB.step toyStore (.beginCoordinatorEpoch 2)).hostActive h.id = 1 := by
    decide +kernel
  obtain ⟨h, hm, hact⟩ := hfacts
  exact ⟨h, Table.mem_def.mpr hm, hact,
    restart_replaceable toyStore_reachable (by decide) (Table.mem_def.mpr hm)⟩

namespace Sessions
section Sound
variable (d : DB) (limits : ConcurrencyLimits) (epoch : Nat)

/-- Every connection that has registered has the row of its Host, and all rows are of the
epoch. -/
structure Sound (s : Sessions) : Prop where
  reachable : d.Reachable limits s.store
  current : ∀ h ∈ s.store.hosts, h.coordinatorEpoch = epoch
  rows : ∀ c conn hostId, s.connections c = some conn → conn.stage.host = some hostId →
    ∃ h ∈ s.store.hosts, h.id = hostId

/-- The Host of a connection whose next call is the deferred `MarkHostOffline`. -/
def leaving (s : Sessions) (c : Nat) : Option String :=
  match s.connections c with
  | some ⟨_, .leaving hostId⟩ => some hostId
  | _ => none

/-- The deferred mark leaves a Host that another process can take over. -/
def EndsReplaceable (s : Sessions) : Action → Prop
  | .advance c birth => ∀ hostId ∈ s.leaving c,
    CanTakeOver d epoch (step d epoch s (.advance c birth)).store hostId
  | _ => True

/-- The deferred mark finds the Host ready, or offline already, or without active segments. -/
def EndsIdle (s : Sessions) : Action → Prop
  | .advance c _ => ∀ hostId ∈ s.leaving c, ∃ h ∈ s.store.hosts.rows, h.id = hostId ∧
    (h.status = .ready ∨ h.status = .offline ∨ s.store.hostActive hostId = 0)
  | _ => True

instance (s : Sessions) : (a : Action) → Decidable (s.EndsIdle a)
  | .advance c _ => inferInstanceAs (Decidable (∀ hostId ∈ s.leaving c,
      ∃ h ∈ s.store.hosts.rows, h.id = hostId ∧
        (h.status = .ready ∨ h.status = .offline ∨ s.store.hostActive hostId = 0)))
  | .accept _ _ | .leave _ | .retirableHosts _ | .retireHost _ | .drop _ | .request _ =>
    isTrue trivial

end Sound

section Runs
variable {d : DB} {limits : ConcurrencyLimits} {epoch : Nat} {s : Sessions} {a : Action} {c : Nat}
  {conn : Connection} {store : State}

theorem step_store (d : DB) (epoch : Nat) (s : Sessions) (a : Action) :
    (step d epoch s a).store = s.store ∨
    ∃ op, within epoch op ∧ (step d epoch s a).store = d.step s.store op := by
  cases a with
  | advance c birth =>
    simp only [step]
    split
    · rename_i conn _
      rcases conn.next_store d epoch s.store birth with heq | ⟨op, hw, -, heq⟩
      · exact .inl heq
      · exact .inr ⟨op, hw, heq⟩
    · exact .inl rfl
  | retireHost k =>
    simp only [step]
    split
    · exact .inr ⟨.retireHost _, trivial, rfl⟩
    · exact .inl rfl
  | request op =>
    simp only [step]
    split
    · exact .inl rfl
    · rename_i h
      exact .inr ⟨op, within_of_not_hosting h, rfl⟩
  | accept | retirableHosts | drop =>
    simp only [step]
    split <;> exact .inl rfl
  | leave c =>
    simp only [step]
    split
    · split <;> exact .inl rfl
    · exact .inl rfl

theorem connections_put {c' : Nat} {conn' : Connection}
    (h : (s.put c conn).connections c' = some conn') :
    (c' = c ∧ conn' = conn) ∨ s.connections c' = some conn' := by
  by_cases hc : c' = c
  · subst hc
    simp only [put, Function.update_self, Option.some.injEq] at h
    exact .inl ⟨rfl, h.symm⟩
  · simp only [put, Function.update_of_ne hc] at h
    exact .inr h

/-- What a step makes of a connection. -/
theorem connections_step (h : (step d epoch s a).connections c = some conn) :
    s.connections c = some conn ∨ (∃ hello, a = .accept c hello ∧ conn = { hello := hello }) ∨
    (∃ birth conn₀, a = .advance c birth ∧ s.connections c = some conn₀ ∧
      conn = { conn₀ with stage := (conn₀.next d epoch s.store birth).2 } ∧
      (step d epoch s a).store = (conn₀.next d epoch s.store birth).1) ∨
    ∃ hello hostId r, s.connections c = some ⟨hello, .serving hostId r⟩ ∧
      conn.hello = hello ∧ (conn.stage = .leaving hostId ∨ conn.stage = .closed) := by
  cases a with
  | accept c' hello =>
    simp only [step] at h
    split at h
    · rcases connections_put h with ⟨rfl, rfl⟩ | h
      · exact .inr (.inl ⟨hello, rfl, rfl⟩)
      · exact .inl h
    · exact .inl h
  | advance c' birth =>
    simp only [step] at h ⊢
    split at h
    · rename_i conn₀ hconn
      rcases connections_put (s := s) h with ⟨rfl, rfl⟩ | h
      · exact .inr (.inr (.inl ⟨birth, conn₀, rfl, hconn, rfl, rfl⟩))
      · exact .inl h
    · exact .inl h
  | leave c' =>
    simp only [step] at h
    split at h
    · rename_i hello hostId r hconn
      split at h
      · rcases connections_put (s := s) h with ⟨rfl, rfl⟩ | h
        · exact .inr (.inr (.inr ⟨hello, hostId, r, hconn, rfl, .inl rfl⟩))
        · exact .inl h
      · rcases connections_put h with ⟨rfl, rfl⟩ | h
        · exact .inr (.inr (.inr ⟨hello, hostId, r, hconn, rfl, .inr rfl⟩))
        · exact .inl h
    · exact .inl h
  | retirableHosts | retireHost | drop | request =>
    simp only [step] at h
    split at h <;> exact .inl h

theorem Sound.step (hs : s.Sound d limits epoch) :
    (step d epoch s a).Sound d limits epoch := by
  have hkept : ∀ h ∈ s.store.hosts, ∃ k ∈ (Sessions.step d epoch s a).store.hosts, k.id = h.id := by
    intro h hm
    rcases step_store d epoch s a with heq | ⟨op, -, heq⟩
    · exact ⟨h, heq ▸ hm, rfl⟩
    · rw [heq]
      exact hosts_step hm
  refine ⟨?_, ?_, fun c conn hostId hconn hhost => ?_⟩
  · rcases step_store d epoch s a with heq | ⟨op, -, heq⟩
    · exact heq ▸ hs.reachable
    · exact heq ▸ reachable_step op hs.reachable
  · rcases step_store d epoch s a with heq | ⟨op, hw, heq⟩
    · exact heq ▸ hs.current
    · exact heq ▸ current_step hw hs.current
  · have hold : ∀ conn₀, s.connections c = some conn₀ → conn₀.stage.host = some hostId →
        ∃ k ∈ (Sessions.step d epoch s a).store.hosts, k.id = hostId := by
      intro conn₀ hconn₀ hhost₀
      obtain ⟨h, hm, rfl⟩ := hs.rows c conn₀ hostId hconn₀ hhost₀
      exact hkept h hm
    rcases connections_step hconn with hconn | ⟨hello, -, rfl⟩ |
      ⟨birth, conn₀, rfl, hconn₀, rfl, hstore⟩ | ⟨hello, id, r, hconn₀, -, hstage⟩
    · exact hold conn hconn hhost
    · cases hhost
    · rcases Connection.next_host hhost with hhost₀ | ⟨-, hx⟩
      · exact hold conn₀ hconn₀ hhost₀
      · rw [hstore]
        exact registered_row hx
    · rcases hstage with hstage | hstage
      · rw [hstage] at hhost
        exact hold _ hconn₀ hhost
      · rw [hstage] at hhost
        cases hhost

theorem sound_start (hr : d.Reachable limits store) (he : epoch ≠ 0) :
    (start d epoch store).Sound d limits epoch :=
  ⟨reachable_step _ hr, fun _ hm => (begun he hm).2, fun _ _ _ h => by cases h⟩

theorem sound_run (hr : d.Reachable limits store) (he : epoch ≠ 0) (actions : List Action) :
    (run d epoch (start d epoch store) actions).Sound d limits epoch :=
  run_invariant (sound_start hr he) fun _ _ hs => hs.step

/-! ## The deferred mark -/

/-- In its epoch, the mark leaves a row offline if it was ready or offline, and the segments as
they are. -/
theorem mark_iff {s : State} {hostId : String} (hcur : ∀ h ∈ s.hosts, h.coordinatorEpoch = epoch) :
    (∃ k ∈ (d.step s (.markHostOffline hostId epoch)).hosts, k.id = hostId ∧
        (k.status = .offline ∨ (d.step s (.markHostOffline hostId epoch)).hostActive hostId = 0)) ↔
      ∃ h ∈ s.hosts, h.id = hostId ∧
        (h.status = .ready ∨ h.status = .offline ∨ s.hostActive hostId = 0) := by
  have hhosts : (d.step s (.markHostOffline hostId epoch)).hosts =
      s.hosts.update (fun h => h.readyIn hostId epoch)
        (fun h => { h with status := .offline }) (Table.keeps RuntimeHost.id) := rfl
  have hactive : (d.step s (.markHostOffline hostId epoch)).hostActive hostId =
      s.hostActive hostId := rfl
  rw [hhosts, hactive]
  constructor
  · rintro ⟨k, hk, hid, hopen⟩
    obtain ⟨h, hm, rfl⟩ := Table.mem_update.mp hk
    rw [Table.patch_field RuntimeHost.id (by intro _; rfl)] at hid
    refine ⟨h, hm, hid, ?_⟩
    by_cases hready : h.status = .ready
    · exact .inl hready
    · rw [Table.patch_neg (by simp [RuntimeHost.readyIn, hready])] at hopen
      exact .inr hopen
  · rintro ⟨h, hm, hid, hstatus⟩
    refine ⟨_, Table.patch_mem_update hm, ?_, ?_⟩
    · rw [Table.patch_field RuntimeHost.id (by intro _; rfl)]
      exact hid
    · rcases hstatus with hready | hoff | hidle
      · rw [Table.patch_pos (by simp [RuntimeHost.readyIn, hready, hid, hcur h hm])]
        exact .inl rfl
      · rw [Table.patch_neg (by simp [RuntimeHost.readyIn, hoff])]
        exact .inl hoff
      · exact .inr hidle

theorem Sound.ends_iff (hs : s.Sound d limits epoch) (he : epoch ≠ 0) :
    EndsReplaceable d epoch s a ↔ s.EndsIdle a := by
  cases a with
  | advance c birth =>
    refine forall₂_congr fun hostId hleaving => ?_
    obtain ⟨hello, hconn⟩ : ∃ hello, s.connections c = some ⟨hello, .leaving hostId⟩ := by
      simp only [leaving] at hleaving
      split at hleaving
      · rename_i hello id hconn
        cases hleaving
        exact ⟨hello, hconn⟩
      · cases hleaving
    have hstore : (Sessions.step d epoch s (.advance c birth)).store =
        d.step s.store (.markHostOffline hostId epoch) := by
      simp only [Sessions.step, hconn, Connection.next]
    have hreach : d.Reachable limits (d.step s.store (.markHostOffline hostId epoch)) :=
      reachable_step _ hs.reachable
    rw [hstore]
    exact (canTakeOver_iff (seated_of_reachable hreach) (manned_of_reachable hreach) he).trans
      (mark_iff hs.current)
  | accept | leave | retirableHosts | retireHost | drop | request => exact Iff.rfl

/-- In every run of an epoch: the end of a session leaves a Host that another process can take
over if and only if the deferred mark finds the Host ready, or offline already, or without active
segments. -/
theorem ends_replaceable_iff (hr : d.Reachable limits store) (he : epoch ≠ 0)
    (actions : List Action) :
    AllSteps (step d epoch) (EndsReplaceable d epoch) (start d epoch store) actions ↔
      AllSteps (step d epoch) EndsIdle (start d epoch store) actions :=
  ⟨fun h => h.imp_when (sound_start hr he) (fun _ _ hs _ => hs.step)
      fun _ _ hs => (hs.ends_iff he).mp,
    fun h => h.imp_when (sound_start hr he) (fun _ _ hs _ => hs.step)
      fun _ _ hs => (hs.ends_iff he).mpr⟩

/-! ## A Host that is left while it reconciles -/

/-- The row of the Host says that it is reconciling, and no connection is there that has
registered it or is of the process that the row names. -/
structure Stranded (s : Sessions) (h : RuntimeHost) : Prop where
  row : h ∈ s.store.hosts
  reconciling : h.status = .reconciling
  unserved : ∀ c conn, s.connections c = some conn → conn.stage.host ≠ some h.id
  foreign : ∀ c conn, s.connections c = some conn → conn.stage = .closed ∨
    ¬ (conn.hello.launchId = h.launchId ∧ conn.hello.pid = h.pid ∧ conn.hello.birth = h.birth)

/-- It is neither the process of the Host that connects nor another owner that takes its run
over. -/
def Action.foreign (h : RuntimeHost) (s : State) : Action → Bool
  | .accept _ hello =>
    !(hello.launchId = h.launchId && hello.pid = h.pid && hello.birth = h.birth)
  | .request (.rebindOwner spec) => !s.ownsLaunch spec.runId h.launchId
  | _ => true

/-- The Host has active segments, and the step is nothing of its own. -/
def Foreign (h : RuntimeHost) (s : Sessions) (a : Action) : Prop :=
  s.store.hostActive h.id ≠ 0 ∧ a.foreign h s.store = true

instance (h : RuntimeHost) (s : Sessions) (a : Action) : Decidable (Foreign h s a) :=
  inferInstanceAs (Decidable (_ ∧ _))

theorem bypassed {s : State} {h : RuntimeHost} {op : Op} (hs : Seated s) (hm : h ∈ s.hosts)
    (hrec : h.status = .reconciling) (hact : s.hostActive h.id ≠ 0) (hop : Bypasses s h op) :
    h ∈ (d.step s op).hosts :=
  step_induct (P := fun s' => h ∈ s'.hosts) hm fun _ hx =>
    (exec_enlists hx).bypassed hs hm hrec hact hop

theorem next_row {s : State} {h : RuntimeHost} {birth : Option String} (hs : Seated s)
    (hm : h ∈ s.hosts) (hrec : h.status = .reconciling) (hact : s.hostActive h.id ≠ 0)
    (hunserved : conn.stage.host ≠ some h.id) (hforeign : conn.stage = .closed ∨
      ¬ (conn.hello.launchId = h.launchId ∧ conn.hello.pid = h.pid ∧ conn.hello.birth = h.birth)) :
    h ∈ (conn.next d epoch s birth).1.hosts := by
  obtain ⟨hello, stage⟩ := conn
  have hbypass : ∀ op, Bypasses s h op → h ∈ (d.step s op).hosts :=
    fun _ => bypassed hs hm hrec hact
  cases stage with
  | bound pid recorded =>
    simp only [Connection.next]
    split
    · exact hm
    · split
      · rename_i s' hx
        have hexec : d.exec s (.authorizeHostRebind hello.launchId pid recorded) = .ok s' :=
          committed_ok.mpr ⟨(), hx⟩
        exact step_of_exec hexec ▸ hbypass _ trivial
      · exact hm
  | cleared =>
    simp only [Connection.next]
    split
    · rename_i s' hostId hx
      have hexec : d.exec s (.registerHost hello epoch) = .ok s' := committed_ok.mpr ⟨hostId, hx⟩
      exact step_of_exec hexec ▸ hbypass _ (hforeign.resolve_left fun h => by cases h)
    · exact hm
  | registered hostId => exact hbypass (.beginHostReconcile hostId) trivial
  | serving hostId reconciled =>
    cases reconciled with
    | false => exact hbypass (.finishHostReconcile hostId) fun h => hunserved (congrArg some h)
    | true => exact hm
  | leaving hostId => exact hbypass (.markHostOffline hostId epoch) trivial
  | greeted | reconciling | closed => exact hm

/-- No process but its own registers a Host that reconciles with active segments. -/
theorem registered_foreign {s s' : State} {h : RuntimeHost} {hello : HostHello} (hs : Seated s)
    (hm : h ∈ s.hosts) (hrec : h.status = .reconciling) (hact : s.hostActive h.id ≠ 0)
    (hforeign : ¬ (hello.launchId = h.launchId ∧ hello.pid = h.pid ∧ hello.birth = h.birth)) :
    d.registerHost s hello epoch ≠ .ok (s', h.id) := by
  intro hx
  have hexec : d.exec s (.registerHost hello epoch) = .ok s' := committed_ok.mpr ⟨_, hx⟩
  have hm' : h ∈ s'.hosts := (exec_enlists hexec).bypassed hs hm hrec hact hforeign
  have hready := registerHost_ready hx hm' rfl
  rw [hrec] at hready
  cases hready

theorem Stranded.step {h : RuntimeHost} (hs : s.Stranded h) (hsound : s.Sound d limits epoch)
    (hc : Foreign h s a) : (step d epoch s a).Stranded h := by
  have hseated := seated_of_reachable hsound.reachable
  refine ⟨?_, hs.reconciling, fun c conn hconn => ?_, fun c conn hconn => ?_⟩
  · cases a with
    | advance c birth =>
      simp only [Sessions.step]
      split
      · rename_i conn hconn
        exact next_row hseated hs.row hs.reconciling hc.1 (hs.unserved c conn hconn)
          (hs.foreign c conn hconn)
      · exact hs.row
    | retireHost k =>
      simp only [Sessions.step]
      split
      · exact bypassed hseated hs.row hs.reconciling hc.1 trivial
      · exact hs.row
    | request op =>
      simp only [Sessions.step]
      split
      · exact hs.row
      · rename_i hop
        refine bypassed hseated hs.row hs.reconciling hc.1 ?_
        cases op <;> first | trivial | simpa [Action.foreign, Bypasses] using hc.2
    | leave c =>
      simp only [Sessions.step]
      split
      · split <;> exact hs.row
      · exact hs.row
    | accept | retirableHosts | drop =>
      simp only [Sessions.step]
      split <;> exact hs.row
  · rcases connections_step hconn with hconn | ⟨hello, -, rfl⟩ |
      ⟨birth, conn₀, rfl, hconn₀, rfl, -⟩ | ⟨hello, hostId, r, hconn₀, -, hstage⟩
    · exact hs.unserved c conn hconn
    · intro hhost
      cases hhost
    · intro hhost
      rcases Connection.next_host hhost with hhost₀ | ⟨hcleared, hx⟩
      · exact hs.unserved c conn₀ hconn₀ hhost₀
      · refine registered_foreign hseated hs.row hs.reconciling hc.1 ?_ hx
        exact (hs.foreign c conn₀ hconn₀).resolve_left fun h => by
          rw [hcleared] at h
          cases h
    · rcases hstage with hstage | hstage
      · rw [hstage]
        exact hs.unserved c _ hconn₀
      · rw [hstage]
        intro hhost
        cases hhost
  · rcases connections_step hconn with hconn | ⟨hello, rfl, rfl⟩ |
      ⟨birth, conn₀, rfl, hconn₀, rfl, -⟩ | ⟨hello, hostId, r, hconn₀, rfl, -⟩
    · exact hs.foreign c conn hconn
    · exact .inr (by simpa [Action.foreign, imp_iff_not_or, or_assoc] using hc.2)
    · rcases hs.foreign c conn₀ hconn₀ with hclosed | hne
      · exact .inl (by simp only [Connection.next, hclosed])
      · exact .inr hne
    · exact .inr ((hs.foreign c _ hconn₀).resolve_left fun h => by cases h)

/-- While a Host is stranded, whoever connects in its place is refused, and the Host stays as it
is until a new epoch begins. -/
theorem stranded_until_restart {h : RuntimeHost} {before actions : List Action}
    (hr : d.Reachable limits store) (he : epoch ≠ 0)
    (hs : (run d epoch (start d epoch store) before).Stranded h)
    (hc : AllSteps (step d epoch) (Foreign h) (run d epoch (start d epoch store) before) actions) :
    (run d epoch (start d epoch store) (before ++ actions)).Stranded h := by
  rw [run, run_append]
  have hboth : (Library.run (step d epoch) (run d epoch (start d epoch store) before)
      actions).Sound d limits epoch ∧ Stranded _ h :=
    run_invariant_when (I := fun s => s.Sound d limits epoch ∧ s.Stranded h)
      ⟨sound_run hr he before, hs⟩ (fun _ _ hs hc => ⟨hs.1.step, hs.2.step hs.1 hc⟩) hc
  exact hboth.2

/-! ## Retiring -/

/-- The Host that a call of `retireCompletedHosts` retires next. -/
def nextRetired (s : Sessions) (k : Nat) : Option String :=
  match s.retiring k with
  | ⟨hostId :: _, none⟩ => some hostId
  | _ => none

/-- A ready Host is retired only without active segments. -/
def RetiresIdle (s : Sessions) : Action → Prop
  | .retireHost k => ∀ hostId ∈ s.nextRetired k, ∀ h ∈ s.store.hosts.rows, h.id = hostId →
    h.status = .ready → s.store.hostActive hostId = 0
  | _ => True

instance (s : Sessions) : (a : Action) → Decidable (s.RetiresIdle a)
  | .retireHost k => inferInstanceAs (Decidable (∀ hostId ∈ s.nextRetired k,
      ∀ h ∈ s.store.hosts.rows, h.id = hostId → h.status = .ready →
        s.store.hostActive hostId = 0))
  | .accept _ _ | .advance _ _ | .leave _ | .retirableHosts _ | .drop _ | .request _ =>
    isTrue trivial

theorem releasedIdle_step (hs : s.Sound d limits epoch) (hi : ReleasedIdle s.store)
    (hc : s.RetiresIdle a) : ReleasedIdle (step d epoch s a).store := by
  have hop : ∀ op, (∀ hostId, op = .retireHost hostId → ∀ h ∈ s.store.hosts, h.id = hostId →
      h.status = .ready → s.store.hostActive hostId = 0) → ReleasedIdle (d.step s.store op) :=
    fun op hretire => step_induct hi fun _ hx =>
      hi.exec (bound_of_reachable hs.reachable) hx hretire
  cases a with
  | advance c birth =>
    simp only [step]
    split
    · rename_i conn hconn
      rcases conn.next_store d epoch s.store birth with heq | ⟨op, -, hne, heq⟩
      · rw [heq]
        exact hi
      · rw [heq]
        exact hop op fun hostId h => absurd h (hne hostId)
    · exact hi
  | retireHost k =>
    simp only [step]
    split
    · rename_i hostId ids hk
      refine hop _ fun id hid h hm => ?_
      cases hid
      exact hc hostId (by simp [nextRetired, hk]) h (Table.mem_def.mp hm)
    · exact hi
  | request op =>
    simp only [step]
    split
    · exact hi
    · rename_i hne
      exact hop op fun hostId h => absurd (h ▸ rfl) hne
  | leave c =>
    simp only [step]
    split
    · split <;> exact hi
    · exact hi
  | accept | retirableHosts | drop =>
    simp only [step]
    split <;> exact hi

/-- A ready Host that is retired is released with the active segments it has. -/
theorem retiresIdle_of_step (hi : ReleasedIdle (step d epoch s a).store) : s.RetiresIdle a := by
  cases a with
  | retireHost k =>
    intro hostId hnext h hm hid hready
    obtain ⟨ids, hk⟩ : ∃ ids, s.retiring k = ⟨hostId :: ids, none⟩ := by
      simp only [nextRetired] at hnext
      split at hnext
      · rename_i id ids hk
        cases hnext
        exact ⟨ids, hk⟩
      · cases hnext
    simp only [step, hk] at hi
    have hmem := Table.patch_mem_update (p := fun h : RuntimeHost => (h.id = hostId &&
      h.status = .ready : Bool)) (f := fun h => { h with status := .released })
      (h := Table.keeps RuntimeHost.id) (Table.mem_def.mpr hm)
    have hidle := hi _ hmem (by rw [Table.patch_pos (by simp [hid, hready])])
    rw [Table.patch_field RuntimeHost.id (by intro _; rfl), hid] at hidle
    exact hidle
  | accept | advance | leave | retirableHosts | drop | request => trivial

/-- In every run of an epoch: the Hosts that are released have no active segments, in all its
states, if and only if every ready Host that the sweep retires has none. -/
theorem released_idle_iff (hr : d.Reachable limits store) (he : epoch ≠ 0)
    (actions : List Action) :
    (∀ before, before <+: actions →
        ReleasedIdle (run d epoch (start d epoch store) before).store) ↔
      AllSteps (step d epoch) RetiresIdle (start d epoch store) actions := by
  refine prefixes_iff_allSteps
    (K := fun s : Sessions => s.Sound d limits epoch ∧ ReleasedIdle s.store)
    ⟨sound_start hr he, fun h hm hrel => ?_⟩ (fun _ hs => hs.2)
    (fun _ _ hs hc => ⟨hs.1.step, releasedIdle_step hs.1 hs.2 hc⟩)
    fun _ _ _ hi => retiresIdle_of_step hi
  rw [(begun he hm).1] at hrel
  cases hrel

end Runs

/-- A process connects and is served; a segment is claimed for it. -/
def servedActions : List Action :=
  .accept 0 toyHello :: List.replicate 5 (Action.advance 0 none) ++
    ([.request (toyClaim 12)] : List Action)

/-- The Host comes back, and is gone again before it has reconciled. -/
def strandedActions : List Action :=
  servedActions ++ ([.leave 0, .advance 0 none, .accept 1 toyHello] : List Action) ++
    List.replicate 4 (Action.advance 1 none) ++ ([.leave 1, .advance 1 none] : List Action)

def toyPlanned : State :=
  toyDB.run (State.fresh {}) [.submitPlan (toyEnv 10) (toyPlan [toyTask "a" 2 []])]

theorem toyPlanned_reachable : toyDB.Reachable {} toyPlanned := ⟨_, rfl⟩

theorem stranded_not_replaceable :
    ¬ AllSteps (step toyDB 1) (EndsReplaceable toyDB 1) (start toyDB 1 toyPlanned)
      strandedActions :=
  fun h => absurd ((ends_replaceable_iff toyPlanned_reachable (by decide) _).mp h)
    (by decide +kernel)

/-- A connection is there only once it has been accepted. -/
theorem accepted_run {actions : List Action} {s : Sessions} {c : Nat} {conn : Connection}
    {d : DB} {epoch : Nat} (h : (run d epoch s actions).connections c = some conn) :
    (∃ conn₀, s.connections c = some conn₀) ∨ ∃ hello, .accept c hello ∈ actions := by
  induction actions generalizing s with
  | nil => exact .inl ⟨conn, h⟩
  | cons a actions ih =>
    rcases ih h with ⟨conn₁, h₁⟩ | ⟨hello, hm⟩
    · rcases connections_step h₁ with h₀ | ⟨hello, rfl, -⟩ | ⟨_, conn₀, -, h₀, -⟩ |
        ⟨_, _, _, h₀, -⟩
      · exact .inl ⟨conn₁, h₀⟩
      · exact .inr ⟨hello, List.mem_cons_self ..⟩
      · exact .inl ⟨conn₀, h₀⟩
      · exact .inl ⟨_, h₀⟩
    · exact .inr ⟨hello, List.mem_cons_of_mem _ hm⟩

/-- Another process with the secrets of the launch tries to take over. -/
def takeoverActions : List Action :=
  .accept 2 { toyHello with pid := 3 } :: List.replicate 3 (Action.advance 2 none)

theorem stranded_refuses : ∃ h,
    (run toyDB 1 (start toyDB 1 toyPlanned) (strandedActions ++ takeoverActions)).Stranded h := by
  have hfacts : ∃ h ∈ (run toyDB 1 (start toyDB 1 toyPlanned) strandedActions).store.hosts.rows,
      h.status = .reconciling ∧
      (∀ c ∈ List.range 2, ∀ conn ∈ (run toyDB 1 (start toyDB 1 toyPlanned)
        strandedActions).connections c, conn.stage.host ≠ some h.id ∧ conn.stage = .closed) ∧
      AllSteps (step toyDB 1) (Foreign h) (run toyDB 1 (start toyDB 1 toyPlanned) strandedActions)
        takeoverActions := by
    decide +kernel
  obtain ⟨h, hm, hrec, hclosed, hforeign⟩ := hfacts
  have honly : ∀ c conn, (run toyDB 1 (start toyDB 1 toyPlanned) strandedActions).connections c =
      some conn → c ∈ List.range 2 := by
    intro c conn hconn
    rcases accepted_run hconn with ⟨conn₀, h₀⟩ | ⟨hello, hmem⟩
    · cases h₀
    · simp [strandedActions, servedActions] at hmem
      rcases hmem with ⟨rfl, -⟩ | ⟨rfl, -⟩ <;> decide
  exact ⟨h, stranded_until_restart toyPlanned_reachable (by decide)
    ⟨Table.mem_def.mpr hm, hrec, fun c conn hconn => (hclosed c (honly c conn hconn) conn hconn).1,
      fun c conn hconn => .inl (hclosed c (honly c conn hconn) conn hconn).2⟩ hforeign⟩

def toyRetry : RetrySpec where
  taskId := "a"
  workRevision := 1
  eventId := "host:1"
  eventRevision := 1
  eventHash := toyDigest "failed12"
  actionSlot := "action-2300be305148432b87cb7cbd348551eb"
  segmentId := "segment-12"
  nextAttemptNo := 2
  useNextFallback := false
  commandId := "retry"

/-- The only task has failed; its retry is queued and claimed while the sweep is on its way. -/
def retiredActions : List Action :=
  servedActions ++ ([.request (toyCommit "a" 12 1 .failed), .request (toyCommit "a" 12 2 .exited),
    .retirableHosts 0, .request (.queueRetry toyRetry), .request (toyClaim 13), .retireHost 0,
    .drop 0] : List Action)

theorem released_while_active :
    ¬ ∀ before, before <+: retiredActions →
      ReleasedIdle (run toyDB 1 (start toyDB 1 toyPlanned) before).store :=
  fun h => absurd ((released_idle_iff toyPlanned_reachable (by decide) _).mp h)
    (by decide +kernel)

end Sessions
end Orchestrator.Coordinator
