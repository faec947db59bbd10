import TrustAnchor.Ingest.Lemmas.Hold
import TrustAnchor.Ingest.Symbolic
import TrustAnchor.Routes.Router

/-!
# Who can add what

In hold mode a list adds nothing to what is served unless a caller with the admin scope asks for it, whatever
requests a server gets, whatever its refresh task fetches and however often it is started again.
-/

namespace TrustAnchor.Routes

open Lib Events Ingest Trust

variable {rt : Runtime} {cfg : Config} {fw : Framework} {auth : AuthMode} {req : Request fw} {m : Service}

/-! ## Requests -/

/-- The framework reads the two scope claims of the internal mode as lists of scopes with a level. -/
structure Framework.ReadsScopes (fw : Framework) : Prop where
  read : ∀ level, fw.hasScopeLevel (fw.new [("sub", ["internal"]), ("scope", ["trust:read"])]) "trust" level = true ↔
    level = "read"
  admin : ∀ level, fw.hasScopeLevel (fw.new [("sub", ["internal"]), ("scope", ["trust:read,trust:admin"])]) "trust"
    level = true ↔ level = "read" ∨ level = "admin"

/-- The caller may use the route. -/
def Request.permitted (auth : AuthMode) (req : Request fw) : Bool :=
  match req.route.level with
  | none => true
  | some level =>
    match auth.user req with
    | .error _ => false
    | .ok u => fw.hasScopeLevel u "trust" level

/-- The caller is an administrator: it has the configured key, or a token with the scope. -/
def Request.Authorized (auth : AuthMode) (req : Request fw) : Prop :=
  match auth with
  | .internal key => key ≠ "" ∧ req.apiKey = key
  | .dpop => ∃ u, req.token = .ok u ∧ fw.hasScopeLevel u "trust" "admin" = true

theorem permitted_iff (hfw : fw.ReadsScopes) (hlevel : req.route.level = some "admin") :
    req.permitted auth = true ↔ req.Authorized auth := by
  unfold Request.permitted Request.Authorized
  rw [hlevel]
  cases auth with
  | internal key =>
      by_cases hkey : key ≠ "" ∧ req.apiKey = key
      · simp [AuthMode.user, internalAuth, hkey, hfw.admin]
      · simp [AuthMode.user, internalAuth, hkey, hfw.read]
  | dpop =>
      cases htoken : req.token with
      | error res => simp [AuthMode.user, htoken]
      | ok u => simp [AuthMode.user, htoken]

/-- The operation of the manager that a route stands for. -/
def Route.operation : Route → Option Op
  | .approvePending fp now refused => some (.approvePending fp now refused)
  | .refresh inp => some (.refresh inp)
  | _ => none

theorem level_of_operation {route : Route} {op : Op} (h : route.operation = some op) : route.level = some "admin" := by
  cases route with
  | approvePending fp now refused => rfl
  | refresh inp => rfl
  | _ => cases h

theorem handle_snd (route : Route) (now : Time) :
    (route.handle rt cfg now m).2 = m.run rt (route.operation.toList.map (cfg, ·)) := by
  cases route with
  | approvePending fp now refused =>
      change (approvePending rt fp now refused m).2 = (m.approvePending rt fp now refused).2
      unfold approvePending
      split <;> rename_i h <;> rw [h]
  | refresh inp =>
      change (Routes.refresh rt cfg inp m).2 = m.step rt cfg (.refresh inp)
      unfold Routes.refresh Service.step
      cases hboot : m.bootstrap <;> rfl
  | _ => rfl

theorem serve_snd (auth : AuthMode) (req : Request fw) :
    (serve rt cfg auth req m).2 = if req.permitted auth then (req.route.handle rt cfg req.now m).2 else m := by
  unfold serve Request.permitted
  cases req.route.level with
  | none => rfl
  | some level =>
      simp only
      cases auth.user req with
      | error res => rfl
      | ok u =>
          simp only [requireScope]
          split <;> rfl

/-! ## Activities -/

/-- The operations of the manager that an activity runs. -/
def Activity.operations (auth : AuthMode) : Activity fw → List Op
  | .start st d => [.restart st, .reconcileDeclared d]
  | .cycle inp => [.refresh inp]
  | .request req => if req.permitted auth then req.route.operation.toList else []

/-- A process that fails to start serves nothing. -/
theorem inactive_of_error {st : Service.Startup} {e : Err}
    (h : (m.newProcess.initializeManager st).1 = .error e) : (m.newProcess.initializeManager st).2.active = none := by
  unfold Service.initializeManager at h ⊢
  obtain ⟨e', hload⟩ | ⟨b, hload, -⟩ := m.newProcess.loadBootstrap_cases st <;> rw [hload] at h ⊢
  · rfl
  · simp only at h ⊢
    split at h
    · rfl
    · split at h <;> cases h

theorem start_eq (st : Service.Startup) (d : Service.Declared) :
    start rt cfg st d m = ((m.newProcess.initializeManager st).2.reconcileDeclared rt cfg d).2 := by
  unfold start
  split
  · rename_i h
    have hactive := inactive_of_error (congrArg Prod.fst h)
    rw [h] at hactive ⊢
    simp only at hactive
    simp only [Service.reconcileDeclared, hactive]
  · rename_i h
    rw [h]

theorem advance_eq (settings : Settings) (act : Activity fw) :
    settings.advance rt act m = m.run rt ((act.operations settings.auth).map (settings.cfg, ·)) := by
  cases act with
  | start st d => exact start_eq st d
  | cycle inp => rfl
  | request req =>
      change (serve rt settings.cfg settings.auth req m).2 = _
      rw [serve_snd, Activity.operations]
      split
      · exact handle_snd req.route req.now
      · rfl

/-- The activity is a request of an administrator to approve the certificate. -/
def Activity.Approves (fp : String) (auth : AuthMode) (act : Activity fw) : Prop :=
  ∃ req now refused, act = .request req ∧ req.route = .approvePending fp now refused ∧ req.Authorized auth

theorem approves_of_mem (hfw : fw.ReadsScopes) {act : Activity fw} {fp : String} {now : Time} {refused : Option String}
    (h : .approvePending fp now refused ∈ act.operations auth) : act.Approves fp auth := by
  cases act with
  | start st d => simp [Activity.operations] at h
  | cycle inp => simp [Activity.operations] at h
  | request req =>
      simp only [Activity.operations] at h
      split at h
      · rename_i hpermitted
        have hop : req.route.operation = some (.approvePending fp now refused) := Option.mem_toList.1 h
        refine ⟨req, now, refused, rfl, ?_, (permitted_iff hfw (level_of_operation hop)).1 hpermitted⟩
        unfold Route.operation at hop
        split at hop <;> cases hop
        assumption
      · cases h

/-! ## Sessions -/

/-- The server is in hold mode without an automatic release, and serves a snapshot after the activity. -/
def Holding (rt : Runtime) (m : Service) (i : Settings × Activity fw) : Prop :=
  i.1.cfg.activationMode = .hold ∧ i.1.cfg.holdAutoRelease ≤ 0 ∧ (i.1.advance rt i.2 m).active ≠ none

/-- What holds in a session of a server that adds only what `T` has. -/
structure Guarded (rt : Runtime) (T : String → String → Prop) (m : Service) : Prop where
  covered : Covered T m
  orderly : Holds (fun _ => Orderly rt) m
  active : m.active ≠ none

theorem Guarded.advance {T : String → String → Prop} (hfw : fw.ReadsScopes) (h : Guarded rt T m)
    {i : Settings × Activity fw} (hi : Holding rt m i) (hT : ∀ fp, i.2.Approves fp i.1.auth → ∀ code, T code fp) :
    Guarded rt T (i.1.advance rt i.2 m) := by
  obtain ⟨settings, act⟩ := i
  obtain ⟨hhold, hrelease, hactive⟩ := hi
  refine ⟨?_, ?_, hactive⟩
  · have hstep : ∀ op ∈ act.operations settings.auth, Covered T (m.step rt settings.cfg op) := by
      intro op hop
      refine h.covered.step hhold hrelease h.orderly h.active ?_
      rintro fp now refused rfl
      exact hT fp (approves_of_mem hfw hop)
    cases act with
    | start st d =>
        change Covered T (start rt settings.cfg st d m)
        rw [start_eq]
        exact (h.covered.restart st).reconcileDeclared d
    | cycle inp => exact hstep (.refresh inp) (by simp [Activity.operations])
    | request req =>
        rw [advance_eq]
        cases hops : (Activity.request req).operations settings.auth with
        | nil => exact h.covered
        | cons op ops =>
            obtain rfl : ops = [] := by
              simp only [Activity.operations] at hops
              split at hops
              · cases hroute : req.route.operation <;> rw [hroute] at hops <;> cases hops
                rfl
              · cases hops
            exact hstep op (by simp [hops])
  · rw [advance_eq]
    exact h.orderly.run_of_stable (orderly_stable rt) _

/-- For every session of a server in hold mode without an automatic release, started again any number of times, from
any state in which a snapshot is served and as long as one is: what a list has in the served snapshot was served or
stored when the session began, or an administrator has asked for its approval in the session. -/
theorem additions_need_admin (hfw : fw.ReadsScopes) (ops : List (Config × Op)) (maxSize : Int)
    (hactive : ((Service.empty maxSize).run rt ops).active ≠ none) (acts : List (Settings × Activity fw))
    (hacts : Meets (fun i m => i.1.advance rt i.2 m) (Holding rt) acts ((Service.empty maxSize).run rt ops)) :
    let m := (Service.empty maxSize).run rt ops
    ∀ s ∈ (runFrom (fun i m => i.1.advance rt i.2 m) acts m).active, ∀ code fp, ActiveIn s code fp →
      (∃ s₀, (m.active = some s₀ ∨ m.store.snapshot = some s₀) ∧ ActiveIn s₀ code fp) ∨
        ∃ i ∈ acts, i.2.Approves fp i.1.auth := by
  intro m s hs code fp hserved
  let T : String → String → Prop := fun code fp =>
    (∃ s₀, (m.active = some s₀ ∨ m.store.snapshot = some s₀) ∧ ActiveIn s₀ code fp) ∨
      ∃ i ∈ acts, i.2.Approves fp i.1.auth
  have hstart : Guarded rt T m := by
    refine ⟨⟨?_, ?_⟩, .of_run (orderly_stable rt) ops maxSize, hactive⟩
    · exact fun s₀ hs₀ code fp h => .inl ⟨s₀, .inl hs₀, h⟩
    · exact fun s₀ hs₀ code fp h => .inl ⟨s₀, .inr hs₀, h⟩
  have hend : Guarded rt T (runFrom (fun i m => i.1.advance rt i.2 m) acts m) := by
    refine runFrom_keeps ?_ hstart (hacts.and (meets_of_forall (fun i hi => hi) m))
    rintro m i h ⟨hholding, hi⟩
    exact h.advance hfw hholding fun fp hfp code => .inr ⟨i, hi, hfp⟩
  exact hend.covered.active s hs code fp hserved

section Growing

open Symbolic

/-- A framework that splits the scope claim at its commas. -/
def commas : Framework where
  User := List (String × List String)
  new := id
  id _ := "internal"
  hasScopeLevel claims scope level :=
    ((claims.filter (·.1 = "scope")).flatMap fun c => c.2.flatMap splitCommas).contains (scope ++ ":" ++ level)

theorem commas_readsScopes : commas.ReadsScopes := by
  have hsplit : splitCommas "trust:read" = ["trust:read"] ∧
      splitCommas "trust:read,trust:admin" = ["trust:read", "trust:admin"] := by decide +kernel
  have hlevel : ∀ level l : String, "trust" ++ ":" ++ level = "trust:" ++ l ↔ level = l := by
    intro level l
    exact String.append_right_inj "trust:"
  refine ⟨fun level => ?_, fun level => ?_⟩
  · simpa [commas, hsplit] using hlevel level "read"
  · simpa [commas, hsplit] using or_congr (hlevel level "read") (hlevel level "admin")

/-- The settings of a server in hold mode with the key `k`. -/
def holding : Settings := ⟨config ["EE"] .hold 0, .internal "k"⟩

def approvalOfM (apiKey : String) : Request commas :=
  ⟨7, apiKey, .error { status := 401 }, .approvePending (growing.runtime.sha256hex (ofText "M")) 7 none⟩

/-- `M` is held; a request without the key asks for its approval, the server is started again, and a request with the
key asks for it. -/
def approvedSession : List (Settings × Activity commas) :=
  [.cycle (refreshInput 6 (growingPages "2")), .request (approvalOfM ""), .start {} ⟨7, fun _ => .error "", none⟩,
    .request (approvalOfM "k")].map (holding, ·)

def firstOps : List (Config × Op) :=
  [install ["B"], Symbolic.refresh 5 (growingPages "1")].map (holding.cfg, ·)

theorem additions_need_admin_growing :
    let m := (Service.empty 100).run growing.runtime firstOps
    let m' := runFrom (fun i m => i.1.advance growing.runtime i.2 m) approvedSession m
    ∃ s s' : Snapshot, m.active = some s ∧ m'.active = some s' ∧
      ¬ ActiveIn s "EE" (hexEncode (ofText "M")) ∧ ActiveIn s' "EE" (hexEncode (ofText "M")) ∧
      ∃ i ∈ approvedSession, i.2.Approves (hexEncode (ofText "M")) i.1.auth := by
  intro m m'
  have hbefore : (m.active.any fun s => ¬ ActiveIn s "EE" (hexEncode (ofText "M"))) ∧
      m.store.snapshot.all fun s => ¬ ActiveIn s "EE" (hexEncode (ofText "M")) := by decide +kernel
  have hafter : m'.active.any fun s => ActiveIn s "EE" (hexEncode (ofText "M")) := by decide +kernel
  have hacts : Meets (fun i m => i.1.advance growing.runtime i.2 m) (Holding growing.runtime) approvedSession m :=
    ⟨⟨rfl, le_rfl, by decide +kernel⟩, ⟨rfl, le_rfl, by decide +kernel⟩, ⟨rfl, le_rfl, by decide +kernel⟩,
      ⟨rfl, le_rfl, by decide +kernel⟩, trivial⟩
  obtain ⟨s, hs, hnew⟩ := (Option.any_eq_true _ _).1 hbefore.1
  obtain ⟨s', hs', hserved⟩ := (Option.any_eq_true _ _).1 hafter
  refine ⟨s, s', hs, hs', of_decide_eq_true hnew, of_decide_eq_true hserved, ?_⟩
  obtain ⟨s₀, hs₀ | hs₀, hold⟩ | happroves := additions_need_admin commas_readsScopes firstOps 100 (by simp [m, hs])
    approvedSession hacts s' hs' "EE" (hexEncode (ofText "M")) (of_decide_eq_true hserved)
  · cases hs.symm.trans hs₀
    exact absurd hold (of_decide_eq_true hnew)
  · have hstored := hbefore.2
    rw [hs₀] at hstored
    exact absurd hold (of_decide_eq_true hstored)
  · exact happroves

end Growing

end TrustAnchor.Routes
