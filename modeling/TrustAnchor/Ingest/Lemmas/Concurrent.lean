import TrustAnchor.Ingest.Concurrent
import TrustAnchor.Ingest.Lemmas.Activations
import TrustAnchor.Ingest.Lemmas.Isolation
import TrustAnchor.Ingest.Lemmas.Requests

/-!
# Calls step by step and calls as a whole

Run without an interruption, the steps of a call are the operation. Stopped in between, they leave
readers and the store with what whole operations leave.
-/

namespace TrustAnchor.Ingest

open Lib Tsl Trust

variable {rt : Runtime} {cfg : Config} {m : Service}

/-! ## A whole call -/

theorem run_reconcileBody (d : Service.Declared)
    (k : Option Snapshot → Bool → Option DeclaredSourceState → Body) :
    (reconcileBody rt cfg d m.active k).run m =
      (k (m.reconcileDeclared rt cfg d).2.active (m.reconcileDeclared rt cfg d).1.1
        (m.reconcileDeclared rt cfg d).1.2).run (m.reconcileDeclared rt cfg d).2 := by
  unfold reconcileBody Service.reconcileDeclared
  cases hactive : m.active with
  | none => simp only [hactive]
  | some prev =>
      simp only
      rcases refreshDeclared rt cfg d.readFile prev d.now with e | ⟨_ | next, rep⟩
      · simp only [hactive]
      · simp only [hactive]
      · rfl

theorem run_activateBody (inp : Service.RefreshInput) (next : Snapshot) (k : Body) :
    (activateBody inp m.active next k).run m = k.run (m.activateCycle inp next) := by
  unfold activateBody Service.activateCycle
  split <;> rfl

theorem run_refreshBody (inp : Service.RefreshInput) (boot : Bootstrap) :
    (refreshBody rt cfg inp m.active boot).run m =
      (.refreshed (some (m.refresh rt cfg boot inp).1), (m.refresh rt cfg boot inp).2) := by
  unfold refreshBody Service.refresh
  rw [run_reconcileBody]
  generalize m.reconcileDeclared rt cfg inp.declared = x
  obtain ⟨⟨changed, rep⟩, m'⟩ := x
  simp only [Prog.run_step]
  rcases Ingest.refresh rt cfg inp.cycle m'.active boot m'.fetcher with ⟨e | next, f⟩
  · rfl
  · exact run_activateBody (m := { m' with fetcher := f }) inp next _

theorem run_approveBody (fp : String) (now : Time) (refused : Option String) :
    (approveBody rt fp now refused m.active).run m =
      (.approved (m.approvePending rt fp now refused).1, (m.approvePending rt fp now refused).2) := by
  unfold approveBody Service.approvePending
  cases m.active with
  | none => rfl
  | some cur =>
      simp only
      cases cur.pending.find? fun pa => pa.anchor.fingerprintSHA256 = fp with
      | none => rfl
      | some pa =>
          simp only
          cases cloneSnapshot rt cur with
          | error e => rfl
          | ok next => cases refused <;> rfl

/-- The steps of a call, uninterrupted, are the operation. -/
theorem Call.run_steps (c : Call) (m : Service) : (c.steps rt cfg).run m = c.exec rt cfg m := by
  cases c with
  | reconcileDeclared d => exact run_reconcileBody d _
  | refresh inp =>
      simp only [steps, exec, reply, op, Service.step, Prog.run_step, id_eq]
      cases m.bootstrap with
      | none => rfl
      | some boot => exact run_refreshBody inp boot
  | approvePending fp now refused => exact run_approveBody fp now refused

/-! ## The mutex -/

theorem lockFree_reconcileBody {d : Service.Declared} {prev : Option Snapshot}
    {k : Option Snapshot → Bool → Option DeclaredSourceState → Body}
    (hk : ∀ prev changed rep, (k prev changed rep).LockFree) : (reconcileBody rt cfg d prev k).LockFree := by
  unfold reconcileBody
  cases prev with
  | none => exact hk _ _ _
  | some prev =>
      simp only
      rcases refreshDeclared rt cfg d.readFile prev d.now with e | ⟨_ | next, rep⟩
      · exact hk _ _ _
      · exact hk _ _ _
      · exact fun _ _ => hk _ _ _

theorem lockFree_refreshBody {inp : Service.RefreshInput} {prev : Option Snapshot} {boot : Bootstrap} :
    (refreshBody rt cfg inp prev boot).LockFree := by
  refine lockFree_reconcileBody fun prev changed rep m => ?_
  simp only
  split
  · trivial
  · unfold activateBody
    split
    · exact fun _ _ => trivial
    · exact fun _ => trivial

theorem lockFree_approveBody {fp : String} {now : Time} {refused : Option String} {cur : Option Snapshot} :
    (approveBody rt fp now refused cur).LockFree := by
  unfold approveBody
  cases cur with
  | none => trivial
  | some cur =>
      simp only
      cases cur.pending.find? fun pa => pa.anchor.fingerprintSHA256 = fp with
      | none => trivial
      | some pa =>
          simp only
          cases cloneSnapshot rt cur with
          | error e => trivial
          | ok next =>
              cases refused with
              | some e => exact fun _ => trivial
              | none => exact fun _ _ => trivial

variable (rt cfg) in
/-- The lock and the deferred unlock are the only ones. -/
theorem Call.lockFree (c : Call) : (c.steps rt cfg).LockFree := by
  cases c with
  | reconcileDeclared d => exact fun m => lockFree_reconcileBody fun _ _ _ => trivial
  | refresh inp =>
      intro m m'
      simp only
      cases m'.bootstrap with
      | none => trivial
      | some boot => exact lockFree_refreshBody
  | approvePending fp now refused => exact fun m => lockFree_approveBody

/-! ## A call cut short -/

variable (rt cfg) in
/-- A cycle leaves the size cap as it is. -/
theorem refresh_maxSize (cy : Cycle) (prev : Option Snapshot) (boot : Bootstrap) (f : Fetcher) :
    (refresh rt cfg cy prev boot f).2.maxSize = f.maxSize := by
  have hguard : Guarded rt cy.net (fun g => g.maxSize = f.maxSize) (fun _ => True) (fun _ => True)
      (fun _ => True) := by
    refine ⟨fun {url} _ g hg => ?_, fun _ => ?_, fun {url} _ g hg => ?_⟩
    · rw [Fetcher.allowURL_run]
      split
      · exact hg
      · split_ifs <;> exact hg
    · refine Sendable.fetch (S := fun _ => True) ⟨fun _ h => h, fun _ _ => trivial⟩ fun _ _ _ _ _ _ => trivial
    · unfold Fetcher.allowHTTPFor
      cases rt.parseURL url with
      | error e => exact hg
      | ok u =>
          simp only
          split_ifs <;> exact hg
  have hlotl : (ingestLOTL rt cfg cy prev boot f).2.maxSize = f.maxSize :=
    hguard.ingestLOTL ⟨trivial, trivial⟩ trivial (fun _ _ _ _ _ _ _ _ _ _ _ _ => ⟨trivial, trivial⟩) rfl
  refine refresh_keeps (I := fun g => g.maxSize = f.maxSize) hlotl fun res f₁ hres codes => ?_
  rw [hres] at hlotl
  exact hguard.ingestTerritories (fun _ => ⟨fun _ _ => ⟨trivial, trivial⟩, fun _ _ => trivial, fun _ _ _ => trivial⟩)
    codes f₁ hlotl

theorem Service.step_maxSize (m : Service) (op : Op) : (m.step rt cfg op).fetcher.maxSize = m.fetcher.maxSize := by
  cases op with
  | restart st =>
      unfold Service.step
      obtain heq | ⟨b, -, ⟨-, heq⟩ | ⟨s, -, heq⟩⟩ := m.restart_cases st <;> simp only [heq] <;> rfl
  | reconcileDeclared d => simp [Service.step]
  | refresh inp =>
      unfold Service.step
      simp only
      cases m.bootstrap with
      | none => rfl
      | some boot =>
          have hmax := refresh_maxSize rt cfg inp.cycle
            (m.reconcileDeclared rt cfg inp.declared).2.active boot (m.reconcileDeclared rt cfg inp.declared).2.fetcher
          obtain ⟨e, f, hcycle, heq⟩ | ⟨next, f, hcycle, heq⟩ := m.refresh_cases boot inp <;>
            rw [hcycle] at hmax <;> simpa [heq] using hmax
  | approvePending fp now refused =>
      change (m.approvePending rt fp now refused).2.fetcher.maxSize = m.fetcher.maxSize
      obtain ⟨e, heq⟩ | ⟨cur, pa, -, -, heq⟩ := m.approvePending_cases fp now refused <;> rw [heq]
      rfl

theorem run_maxSize (ops : List (Config × Op)) : (m.run rt ops).fetcher.maxSize = m.fetcher.maxSize :=
  runFrom_invariant (I := fun m' : Service => m'.fetcher.maxSize = m.fetcher.maxSize)
    (fun m' i h => (m'.step_maxSize i.2).trans h) ops rfl

/-- Readers find what `m` serves, a new process what `m'` stores. -/
structure Between (m m' t : Service) : Prop where
  active : t.active = m.active
  history : t.history = m.history
  store : t.store = m'.store
  maxSize : t.fetcher.maxSize = m.fetcher.maxSize

theorem Between.refl (m : Service) : Between m m m := ⟨rfl, rfl, rfl, rfl⟩

/-- After the write and before the swap of the pointer. -/
theorem Between.saved {m' t : Service} {refused : Option String} {next : Snapshot} (h : Between m m t)
    (hstore : m'.store = (t.saveSnapshot refused next).store) : Between m m' (t.saveSnapshot refused next) := by
  cases refused with
  | some e => exact ⟨h.active, h.history, hstore.symm, h.maxSize⟩
  | none => exact ⟨h.active, h.history, hstore.symm, h.maxSize⟩

section Always

variable {I : Service → Prop}

theorem always_reconcileBody {d : Service.Declared}
    {k : Option Snapshot → Bool → Option DeclaredSourceState → Body} (h : ∀ t, Between m m t → I t)
    (h' : ∀ t, Between m (m.reconcileDeclared rt cfg d).2 t → I t)
    (hk : ∀ changed rep, (k (m.reconcileDeclared rt cfg d).2.active changed rep).Always I
      (m.reconcileDeclared rt cfg d).2) :
    (reconcileBody rt cfg d m.active k).Always I m := by
  unfold reconcileBody
  unfold Service.reconcileDeclared at h' hk
  cases hactive : m.active with
  | none =>
      simp only [hactive] at hk ⊢
      exact hk false none
  | some prev =>
      simp only [hactive] at h' hk ⊢
      rcases hnext : refreshDeclared rt cfg d.readFile prev d.now with e | ⟨_ | next, rep⟩ <;>
        simp only [hnext] at h' hk ⊢
      · simpa [hactive] using hk false none
      · simpa [hactive] using hk false (some rep)
      · exact ⟨h m (.refl m), h' _ ((Between.refl m).saved rfl), hk true (some rep)⟩

theorem always_activateBody {inp : Service.RefreshInput} {next : Snapshot} {r : Reply} {t : Service}
    (ht : Between m m t) (h : ∀ t, Between m m t → I t) (h' : ∀ u, Between m (t.activateCycle inp next) u → I u)
    (hlast : I (t.activateCycle inp next)) : (activateBody inp t.active next (.ret r)).Always I t := by
  unfold activateBody
  unfold Service.activateCycle at h' hlast
  split_ifs at h' hlast ⊢
  · exact ⟨h t ht, h' _ (ht.saved rfl), hlast⟩
  · exact ⟨h t ht, hlast⟩

theorem always_refreshBody {inp : Service.RefreshInput} {boot : Bootstrap} (h : ∀ t, Between m m t → I t)
    (h₁ : ∀ t, Between m (m.reconcileDeclared rt cfg inp.declared).2 t → I t)
    (h₁' : ∀ t, Between (m.reconcileDeclared rt cfg inp.declared).2 (m.reconcileDeclared rt cfg inp.declared).2 t → I t)
    (h₂ : ∀ t, Between (m.reconcileDeclared rt cfg inp.declared).2 (m.refresh rt cfg boot inp).2 t → I t)
    (hlast : I (m.refresh rt cfg boot inp).2) : (refreshBody rt cfg inp m.active boot).Always I m := by
  refine always_reconcileBody h h₁ fun changed rep => ?_
  unfold Service.refresh at h₂ hlast
  simp only at h₂ hlast
  generalize (m.reconcileDeclared rt cfg inp.declared).2 = m' at h₁' h₂ hlast ⊢
  have hmax := refresh_maxSize rt cfg inp.cycle m'.active boot m'.fetcher
  refine ⟨h₁' m' (.refl m'), ?_⟩
  simp only
  rcases hcycle : refresh rt cfg inp.cycle m'.active boot m'.fetcher with ⟨e | next, f⟩ <;>
    rw [hcycle] at h₂ hmax hlast
  · exact h₁' _ ⟨rfl, rfl, rfl, hmax⟩
  · have hfetched : Between m' m' { m' with fetcher := f } := ⟨rfl, rfl, rfl, hmax⟩
    exact always_activateBody hfetched h₁' h₂ hlast

theorem always_approveBody {fp : String} {now : Time} {refused : Option String} (h : ∀ t, Between m m t → I t)
    (h' : ∀ t, Between m (m.approvePending rt fp now refused).2 t → I t)
    (hlast : I (m.approvePending rt fp now refused).2) :
    (approveBody rt fp now refused m.active).Always I m := by
  have hnow : I m := h m (.refl m)
  unfold approveBody
  unfold Service.approvePending at h' hlast
  cases hactive : m.active with
  | none => exact hnow
  | some cur =>
      simp only [hactive] at h' hlast ⊢
      cases hpa : cur.pending.find? fun pa => pa.anchor.fingerprintSHA256 = fp with
      | none => exact hnow
      | some pa =>
          simp only [hpa] at h' hlast ⊢
          cases hnext : cloneSnapshot rt cur with
          | error e => exact hnow
          | ok next =>
              simp only [hnext] at h' hlast ⊢
              cases refused with
              | some e => exact ⟨hnow, hnow⟩
              | none => exact ⟨hnow, h' _ ((Between.refl m).saved rfl), hlast⟩

end Always

/-! ## The request log

Nothing reads the log, so states that differ in it alone go on alike. -/

theorem ingestTerritories_agree (cy : Cycle) (ps : PointerSet) (prev : Option Snapshot) (codes : List String) :
    Fallible.Agree Fetcher.SameRules (ingestTerritories rt cfg cy ps prev codes)
      (ingestTerritories rt cfg cy ps prev codes) := by
  induction codes with
  | nil => exact .pure _
  | cons code codes ih =>
      refine .bind (.attempt (ingestTerritory_agree rfl ⟨rfl, rfl, rfl⟩ ps)) fun r => ?_
      cases r <;> exact .bind ih fun _ => .pure _

variable (rt cfg) in
theorem refresh_agree (cy : Cycle) (prev : Option Snapshot) (boot : Bootstrap) :
    Fallible.Agree Fetcher.SameRules (refresh rt cfg cy prev boot) (refresh rt cfg cy prev boot) := by
  refine .bind (ingestLOTL_agree ⟨rfl, rfl, rfl, rfl, fun _ => rfl⟩) fun res => .bind (.ofExcept _) fun _ =>
    .bind (ingestTerritories_agree cy res.pointers prev _) fun r => ?_
  simp only
  split_ifs
  · exact .fail _
  · exact .pure _

namespace Service

/-- The two states differ in the request log at most. -/
def Alike (m m' : Service) : Prop := ∃ f, m.fetcher.SameRules f ∧ m' = { m with fetcher := f }

namespace Alike

theorem active {m m' : Service} (h : m.Alike m') : m.active = m'.active := by
  obtain ⟨f, -, rfl⟩ := h
  rfl

theorem history {m m' : Service} (h : m.Alike m') : m.history = m'.history := by
  obtain ⟨f, -, rfl⟩ := h
  rfl

theorem store {m m' : Service} (h : m.Alike m') : m.store = m'.store := by
  obtain ⟨f, -, rfl⟩ := h
  rfl

theorem maxSize {m m' : Service} (h : m.Alike m') : m.fetcher.maxSize = m'.fetcher.maxSize := by
  obtain ⟨f, hf, rfl⟩ := h
  exact hf.maxSize

theorem reconcileDeclared {m m' : Service} (h : m.Alike m') (d : Declared) :
    (m.reconcileDeclared rt cfg d).2.Alike (m'.reconcileDeclared rt cfg d).2 := by
  obtain ⟨f, hf, rfl⟩ := h
  obtain ⟨active, bootstrap, store, fetcher, history⟩ := m
  unfold Service.reconcileDeclared
  cases active with
  | none => exact ⟨f, hf, rfl⟩
  | some prev =>
      simp only
      rcases refreshDeclared rt cfg d.readFile prev d.now with e | ⟨_ | next, rep⟩
      · exact ⟨f, hf, rfl⟩
      · exact ⟨f, hf, rfl⟩
      · refine ⟨f, ?_, ?_⟩
        · cases d.saveSnapshot <;> exact hf
        · cases d.saveSnapshot <;> rfl

theorem activateCycle {m m' : Service} (h : m.Alike m') (inp : RefreshInput) (next : Snapshot) :
    (m.activateCycle inp next).Alike (m'.activateCycle inp next) := by
  obtain ⟨f, hf, rfl⟩ := h
  unfold Service.activateCycle
  simp only
  split_ifs
  · refine ⟨f, ?_, ?_⟩
    · cases inp.saveSnapshot <;> exact hf
    · cases inp.saveSnapshot <;> rfl
  · exact ⟨f, hf, rfl⟩

theorem refresh {m m' : Service} (h : m.Alike m') (boot : Bootstrap) (inp : RefreshInput) :
    (m.refresh rt cfg boot inp).2.Alike (m'.refresh rt cfg boot inp).2 := by
  have hfirst : (m.reconcileDeclared rt cfg inp.declared).2.Alike (m'.reconcileDeclared rt cfg inp.declared).2 :=
    h.reconcileDeclared inp.declared
  unfold Service.refresh
  simp only
  generalize (m.reconcileDeclared rt cfg inp.declared).2 = m₁ at hfirst ⊢
  obtain ⟨f, hf, heq⟩ := hfirst
  rw [heq]
  simp only
  obtain ⟨hans, hrules⟩ := refresh_agree rt cfg inp.cycle m₁.active boot _ _ hf
  rcases hx : Ingest.refresh rt cfg inp.cycle m₁.active boot m₁.fetcher with ⟨e | next, g⟩ <;>
    rcases hy : Ingest.refresh rt cfg inp.cycle m₁.active boot f with ⟨e' | next', g'⟩ <;>
    rw [hx, hy] at hans hrules <;> cases hans
  · exact ⟨g', hrules, rfl⟩
  · have hnow : { m₁ with fetcher := g }.Alike { m₁ with fetcher := g' } := ⟨g', hrules, rfl⟩
    exact hnow.activateCycle inp next

theorem approvePending {m m' : Service} (h : m.Alike m') (fp : String) (now : Time) (refused : Option String) :
    (m.approvePending rt fp now refused).2.Alike (m'.approvePending rt fp now refused).2 := by
  obtain ⟨f, hf, rfl⟩ := h
  obtain ⟨active, bootstrap, store, fetcher, history⟩ := m
  unfold Service.approvePending
  cases active with
  | none => exact ⟨f, hf, rfl⟩
  | some cur =>
      simp only
      cases cur.pending.find? fun pa => pa.anchor.fingerprintSHA256 = fp with
      | none => exact ⟨f, hf, rfl⟩
      | some pa =>
          simp only
          cases cloneSnapshot rt cur with
          | error e => exact ⟨f, hf, rfl⟩
          | ok next => cases refused <;> exact ⟨f, hf, rfl⟩

theorem initializeManager {m m' : Service} (h : m.Alike m') (st : Startup) :
    (m.initializeManager st).2.Alike (m'.initializeManager st).2 := by
  obtain ⟨f, hf, rfl⟩ := h
  obtain ⟨active, bootstrap, ⟨b, s⟩, fetcher, history⟩ := m
  obtain ⟨load, seed, save, loadSnapshot⟩ := st
  unfold Service.initializeManager Service.loadBootstrap
  simp only
  rcases load with _ | e
  · rcases b with _ | b
    · rcases seed with _ | e | b
      · exact ⟨f, hf, rfl⟩
      · exact ⟨f, hf, rfl⟩
      · rcases save with _ | e <;> rcases loadSnapshot with _ | e' <;> rcases s with _ | s <;>
          exact ⟨f, hf, rfl⟩
    · rcases loadSnapshot with _ | e' <;> rcases s with _ | s <;> exact ⟨f, hf, rfl⟩
  · exact ⟨f, hf, rfl⟩

theorem step {m m' : Service} (h : m.Alike m') (op : Op) : (m.step rt cfg op).Alike (m'.step rt cfg op) := by
  cases op with
  | restart st =>
      obtain ⟨f, hf, rfl⟩ := h
      refine initializeManager ⟨{ newFetcher f.maxSize with sent := f.sent }, ?_, rfl⟩ st
      simp [Fetcher.SameRules, Fetcher.rules, Service.newProcess, newFetcher, hf.maxSize]
  | reconcileDeclared d => exact h.reconcileDeclared d
  | refresh inp =>
      have hboot : m'.bootstrap = m.bootstrap := by
        obtain ⟨f, -, rfl⟩ := h
        rfl
      unfold Service.step
      simp only [hboot]
      cases m.bootstrap with
      | none => exact h
      | some boot => exact h.refresh boot inp
  | approvePending fp now refused => exact h.approvePending fp now refused

variable (rt) in
theorem run {m m' : Service} (h : m.Alike m') (ops : List (Config × Op)) :
    (m.run rt ops).Alike (m'.run rt ops) := by
  induction ops generalizing m m' with
  | nil => exact h
  | cons i ops ih => exact ih (h.step i.2)

end Alike

/-- A new process depends on the store and the size cap alone. -/
theorem restart_alike {m m' : Service} (hstore : m.store = m'.store)
    (hmax : m.fetcher.maxSize = m'.fetcher.maxSize) (st : Startup) :
    (m.newProcess.initializeManager st).2.Alike (m'.newProcess.initializeManager st).2 := by
  refine Alike.initializeManager ⟨m'.newProcess.fetcher, ?_, ?_⟩ st
  · simp [Fetcher.SameRules, Fetcher.rules, newProcess, newFetcher, hmax]
  · simp [newProcess, hstore]

end Service

/-! ## Parts of a call -/

theorem refreshDeclared_again {readFile : String → Except String Bytes} {prev next : Snapshot} {now : Time}
    {rep : DeclaredSourceState} (h : refreshDeclared rt cfg readFile prev now = .ok (some next, rep))
    {next' : Snapshot} {rep' : DeclaredSourceState} :
    refreshDeclared rt cfg readFile next now ≠ .ok (some next', rep') := by
  intro h'
  obtain ⟨rfl, -⟩ := refreshDeclared_eq h
  obtain ⟨rfl, hid⟩ := refreshDeclared_eq h'
  refine hid ?_
  cases loadInternal rt readFile cfg.internalTrustSource now <;> rfl

/-- Reconciling once more changes nothing. -/
theorem Service.reconcileDeclared_again (m : Service) (d : Declared) :
    ((m.reconcileDeclared rt cfg d).2.reconcileDeclared rt cfg d).2 = (m.reconcileDeclared rt cfg d).2 := by
  obtain hsame | ⟨prev, next, rep, -, hnext, hstate⟩ := @reconcileDeclared_cases rt cfg m d
  · rw [hsame, hsame]
  · obtain hsame | ⟨prev', next', rep', hactive, hagain, -⟩ :=
      @reconcileDeclared_cases rt cfg (m.reconcileDeclared rt cfg d).2 d
    · exact hsame
    · rw [hstate] at hactive
      cases hactive
      exact absurd hagain (refreshDeclared_again hnext)

theorem Service.refresh_reconciled (m : Service) (boot : Bootstrap) (inp : RefreshInput) :
    ((m.reconcileDeclared rt cfg inp.declared).2.refresh rt cfg boot inp).2 = (m.refresh rt cfg boot inp).2 := by
  have hagain := @reconcileDeclared_again rt cfg m inp.declared
  unfold Service.refresh
  simp only [hagain]
  split <;> rfl

/-- The operations that a call goes through. -/
def Call.parts : Call → List Op
  | .reconcileDeclared d => [.reconcileDeclared d]
  | .refresh inp => [.reconcileDeclared inp.declared, .refresh inp]
  | .approvePending fp now refused => [.approvePending fp now refused]

/-- Amid the operations on `m`: readers find what a part of them serves, and the store has what this part
stores or what it stores with the next one. -/
def Amid (rt : Runtime) (m : Service) (ops : List (Config × Op)) (t : Service) : Prop :=
  ∃ served stored, served <+: stored ∧ stored <+: ops ∧ stored.length ≤ served.length + 1 ∧
    Between (m.run rt served) (m.run rt stored) t

theorem Amid.of_between {ops : List (Config × Op)} {t : Service} (served : List (Config × Op))
    (hserved : served <+: ops) (h : Between (m.run rt served) (m.run rt served) t) : Amid rt m ops t :=
  ⟨served, served, List.prefix_rfl, hserved, by omega, h⟩

theorem Amid.of_next {ops : List (Config × Op)} {i : Config × Op} {t : Service} (served : List (Config × Op))
    (hserved : served ++ [i] <+: ops) (h : Between (m.run rt served) (m.run rt (served ++ [i])) t) : Amid rt m ops t :=
  ⟨served, served ++ [i], List.prefix_append _ _, hserved, by simp, h⟩

/-- At every moment a call is amid its operations. -/
theorem Call.always_amid (c : Call) (m : Service) :
    (c.steps rt cfg).Always (Amid rt m (c.parts.map (cfg, ·))) m := by
  have hstart : ∀ t, Between m m t → Amid rt m (c.parts.map (cfg, ·)) t :=
    fun t ht => .of_between [] List.nil_prefix ht
  cases c with
  | reconcileDeclared d =>
      refine ⟨hstart m (.refl m), always_reconcileBody hstart (fun t ht => ?_) fun _ _ => ?_⟩
      · exact .of_next [] List.prefix_rfl ht
      · exact .of_between _ List.prefix_rfl (.refl _)
  | refresh inp =>
      refine ⟨hstart m (.refl m), hstart m (.refl m), ?_⟩
      simp only [id_eq]
      cases hboot : m.bootstrap with
      | none => exact hstart m (.refl m)
      | some boot =>
          have hrun : m.run rt [(cfg, .reconcileDeclared inp.declared), (cfg, .refresh inp)] =
              (m.refresh rt cfg boot inp).2 := by
            rw [← m.refresh_reconciled]
            simp [Service.run, Service.step, hboot]
          have hfirst : [(cfg, .reconcileDeclared inp.declared)] <+: (Call.refresh inp).parts.map (cfg, ·) :=
            List.prefix_append _ [(cfg, Op.refresh inp)]
          refine always_refreshBody hstart (fun t ht => .of_next [] hfirst ht) (fun t ht => .of_between _ hfirst ht)
            (fun t ht => ?_) ?_
          · exact .of_next [(cfg, .reconcileDeclared inp.declared)] List.prefix_rfl (hrun ▸ ht)
          · exact .of_between _ List.prefix_rfl (hrun ▸ .refl _)
  | approvePending fp now refused =>
      refine ⟨hstart m (.refl m), always_approveBody hstart (fun t ht => ?_) ?_⟩
      · exact .of_next [] List.prefix_rfl ht
      · exact .of_between _ List.prefix_rfl (.refl _)

end TrustAnchor.Ingest
