import Mathlib.Data.List.Chain
import TrustAnchor.Tasks.Refresh

/-!
# The pace of the refresh task
-/

namespace TrustAnchor.Trust.Snapshot

variable {earliest : Time} {known : List Time}

/-- The updates that are known. -/
def nextUpdates (s : Snapshot) : List Time :=
  (s.lotlNextUpdate :: s.territories.map Territory.nextUpdate).flatMap fun t => t.toList.filter (· ≠ zeroTime)

/-- The earliest of the instants that are known, and zero without one. -/
def Earliest (earliest : Time) (known : List Time) : Prop :=
  (known = [] ∧ earliest = zeroTime) ∨ (earliest ≠ zeroTime ∧ earliest ∈ known ∧ ∀ t ∈ known, earliest ≤ t)

theorem Earliest.consider (h : Earliest earliest known) (t : Option Time) :
    Earliest (Snapshot.consider earliest t) (known ++ (t.toList.filter (· ≠ zeroTime))) := by
  cases t with
  | none => simpa [Snapshot.consider] using h
  | some t =>
      by_cases hzero : t = zeroTime
      · simpa [Snapshot.consider, hzero] using h
      have hkept : [t].filter (· ≠ zeroTime) = [t] := by simp [hzero]
      simp only [Snapshot.consider, if_neg hzero, Option.toList_some, hkept]
      right
      rcases h with ⟨rfl, rfl⟩ | ⟨hne, hmem, hleast⟩
      · simp [hzero]
      by_cases hearlier : t < earliest
      · have hall : ∀ u ∈ known, t ≤ u := fun u hu => hearlier.le.trans (hleast u hu)
        simpa [hearlier, hzero, or_imp, forall_and] using hall
      · have hlater : earliest ≤ t := le_of_not_gt hearlier
        simp only [hne, hearlier, or_self, if_false]
        refine ⟨hne, List.mem_append_left _ hmem, fun u hu => ?_⟩
        rcases List.mem_append.1 hu with hu | hu
        · exact hleast u hu
        · exact List.mem_singleton.1 hu ▸ hlater

theorem Earliest.foldl_consider (h : Earliest earliest known) (ts : List (Option Time)) :
    Earliest (ts.foldl Snapshot.consider earliest) (known ++ ts.flatMap fun t => t.toList.filter (· ≠ zeroTime)) := by
  induction ts generalizing earliest known with
  | nil => simpa using h
  | cons t ts ih =>
      have hrest := ih (h.consider t)
      simpa using hrest

theorem earliest_nextUpdates (s : Snapshot) : Earliest s.earliestNextUpdate s.nextUpdates :=
  Earliest.foldl_consider (.inl ⟨rfl, rfl⟩) (s.lotlNextUpdate :: s.territories.map Territory.nextUpdate)

end TrustAnchor.Trust.Snapshot

namespace TrustAnchor.Tasks

open Trust Ingest

variable {rt : Runtime} {cfg : Config} {interval : Duration} {armed wake : Time} {served : Option Snapshot}

/-- How long the task sleeps on the snapshot that is served as it goes to sleep. -/
structure Awaits (interval : Duration) (armed : Time) (served : Option Snapshot) (wake : Time) : Prop where
  floor : armed + minWake ≤ wake
  ceiling : wake ≤ armed + max interval minWake
  /-- A list that is due is not waited past, except for the least sleep. -/
  due : ∀ snap ∈ served, ∀ due ∈ snap.nextUpdates, wake ≤ max due (armed + minWake)
  /-- Without a list that is due earlier, the sleep is the interval. -/
  undue : interval ≤ maxDuration → (∀ snap ∈ served, ∀ due ∈ snap.nextUpdates, armed + interval ≤ due) →
    wake = armed + max interval minWake

theorem nextWake_none (armed : Time) : nextWake interval armed none = max interval minWake :=
  (max_def_lt _ _).symm

theorem nextWake_some (armed : Time) (snap : Snapshot) :
    nextWake interval armed (some snap) =
      max (if snap.nextUpdates = [] then interval else min (timeSub snap.earliestNextUpdate armed) interval)
        minWake := by
  have hdue : snap.nextUpdates = [] ↔ snap.earliestNextUpdate = zeroTime := by
    rcases snap.earliest_nextUpdates with ⟨hnil, hzero⟩ | ⟨hne, hmem, -⟩
    · simp [hnil, hzero]
    · simp [hne, List.ne_nil_of_mem hmem]
  rw [max_def_lt]
  by_cases hzero : snap.earliestNextUpdate = zeroTime <;> simp [nextWake, hdue, hzero, min_def_lt]

/-- Saturation only raises a difference that is below every duration. -/
theorem max_timeSub_le (t u : Time) {d : Duration} (hd : minDuration ≤ d) : max (timeSub t u) d ≤ max (t - u) d :=
  max_le (max_le (hd.trans (le_max_right _ _)) ((min_le_right _ _).trans (le_max_left _ _))) (le_max_right _ _)

theorem add_max_sub (t u d : Int) : t + max (u - t) d = max u (t + d) := by
  omega

theorem awaits_nextWake (interval : Duration) (armed : Time) (served : Option Snapshot) :
    Awaits interval armed served (armed + nextWake interval armed served) := by
  cases served with
  | none =>
      rw [nextWake_none]
      constructor <;> simp
  | some snap =>
      rw [nextWake_some]
      have hleast : minDuration ≤ minWake := by decide
      rcases snap.earliest_nextUpdates with ⟨hnil, -⟩ | ⟨-, hmem, hearliest⟩
      · constructor <;> simp [hnil]
      rw [if_neg (List.ne_nil_of_mem hmem)]
      refine ⟨by simp, add_le_add_right (max_le_max (min_le_right _ _) le_rfl) _, fun s hs due hdue => ?_, fun hint hundue => ?_⟩
      · obtain rfl := Option.mem_some.1 hs
        calc armed + max (min (timeSub snap.earliestNextUpdate armed) interval) minWake
            ≤ armed + max (timeSub snap.earliestNextUpdate armed) minWake :=
              add_le_add_right (max_le_max (min_le_left _ _) le_rfl) _
          _ ≤ armed + max (snap.earliestNextUpdate - armed) minWake := add_le_add_right (max_timeSub_le _ _ hleast) _
          _ ≤ armed + max (due - armed) minWake :=
            add_le_add_right (max_le_max (Int.sub_le_sub_right (hearliest due hdue) _) le_rfl) _
          _ = max due (armed + minWake) := add_max_sub armed due minWake
      · have hlate : interval ≤ timeSub snap.earliestNextUpdate armed := by
          have hdue : interval ≤ snap.earliestNextUpdate - armed :=
            Int.le_sub_left_of_add_le (hundue snap rfl _ hmem)
          exact le_max_of_le_right (le_min hint hdue)
        rw [min_eq_right hlate]

/-! ## What the goroutine does -/

/-- Why a cycle is run, and what is then left of the trigger. -/
inductive Task.Ready (t : Task) : Trigger → Bool → Prop where
  | first : t.phase = .starting → Ready t .first t.kicked
  | kick {armed : Time} {served : Option Snapshot} {wake : Time} :
      t.phase = .sleeping armed served wake → t.kicked = true → Ready t .kick false
  | timer {armed : Time} {served : Option Snapshot} {wake : Time} :
      t.phase = .sleeping armed served wake → wake ≤ t.now → Ready t .timer t.kicked

/-- What a step of the goroutine comes to. -/
inductive Task.Goes (interval : Duration) (t : Task) : Task → Prop where
  | waits : Goes interval t t
  | skips {kicked : Bool} : kicked ≤ t.kicked → Goes interval t { t with kicked, phase := .arming }
  | arms : t.phase = .arming → Goes interval t
      { t with phase := .sleeping t.now t.service.active (t.now + nextWake interval t.now t.service.active) }
  | returns : t.cancelled = true → Goes interval t { t with phase := .returned }
  | runs {trigger kicked} (service : Service) (took : Nat) : t.cancelled = false → t.Ready trigger kicked →
      Goes interval t { t with now := t.now + took, phase := .arming, kicked, service
                               runs := ⟨trigger, t.now, t.now + took⟩ :: t.runs }

theorem Task.goes_go (t : Task) (pick : Case) (inp : Service.RefreshInput) (took : Nat) :
    t.Goes interval (t.go rt cfg interval pick inp took) := by
  obtain ⟨now, phase, kicked, cancelled, m, runs⟩ := t
  cases phase with
  | starting =>
      cases cancelled with
      | true =>
          simp only [Task.go, Task.cycle, if_true, ite_self]
          exact .skips le_rfl
      | false =>
          simp only [Task.go, Task.cycle, Bool.false_eq_true, if_false]
          split
          · exact .runs _ took rfl (.first rfl)
          · exact .skips le_rfl
  | arming => exact .arms rfl
  | sleeping armed served wake =>
      cases pick with
      | done =>
          simp only [Task.go]
          split
          · exact .returns ‹_›
          · exact .waits
      | kick =>
          cases kicked with
          | false => exact .waits
          | true =>
              cases cancelled with
              | true => exact .skips (Bool.false_le _)
              | false => exact .runs _ took rfl (.kick rfl rfl)
      | timer =>
          simp only [Task.go]
          split
          · cases cancelled with
            | true => exact .skips le_rfl
            | false => exact .runs _ took rfl (.timer rfl ‹_›)
          · exact .waits
  | returned => exact .waits

/-! ## The invariant -/

/-- What a cycle leaves to the one before it. -/
def Run.Follows (newer older : Run) : Prop :=
  newer.trigger ≠ .first ∧ older.finished ≤ newer.started ∧
    (newer.trigger = .timer → older.finished + minWake ≤ newer.started)

namespace Task

/-- The cycles that a trigger has made the task run. -/
def count (t : Task) (trigger : Trigger) : Nat := t.runs.countP (·.trigger = trigger)

/-- Since when the task has not run a cycle. -/
def idle (t : Task) : Time :=
  match t.phase with
  | .sleeping armed _ _ => armed
  | _ => t.now

structure Paced (interval : Duration) (start : Time) (t : Task) : Prop where
  idle_le : t.idle ≤ t.now
  starting : t.phase = .starting → t.runs = []
  asleep : ∀ armed served wake, t.phase = .sleeping armed served wake → Awaits interval armed served wake
  spaced : t.runs.IsChain Run.Follows
  latest : ∀ r ∈ t.runs.head?, r.finished ≤ t.idle
  rate : t.count .timer * minWake ≤ t.idle - start

variable {start : Time} {t t' : Task}

/-- Resting: the cycles stay, and only time goes on. -/
theorem Paced.rests (h : t.Paced interval start) (hruns : t'.runs = t.runs) (hidle : t.idle ≤ t'.idle)
    (hnow : t'.idle ≤ t'.now) (hstarting : t'.phase = .starting → t.phase = .starting)
    (hasleep : ∀ armed served wake, t'.phase = .sleeping armed served wake → Awaits interval armed served wake) :
    t'.Paced interval start := by
  have hcount : t'.count .timer = t.count .timer := by rw [count, hruns, count]
  refine ⟨hnow, fun hp => hruns ▸ h.starting (hstarting hp), hasleep, hruns ▸ h.spaced, fun r hr => ?_, ?_⟩
  · exact (h.latest r (hruns ▸ hr)).trans hidle
  · rw [hcount]
    exact h.rate.trans (Int.sub_le_sub_right hidle _)

theorem Paced.follows {trigger : Trigger} {kicked : Bool} (h : t.Paced interval start)
    (hready : t.Ready trigger kicked) (finished : Time) :
    ∀ r ∈ t.runs.head?, Run.Follows ⟨trigger, t.now, finished⟩ r := by
  intro r hr
  have hnow : r.finished ≤ t.now := (h.latest r hr).trans h.idle_le
  cases hready with
  | first hphase => simp [h.starting hphase] at hr
  | kick hphase hkicked => exact ⟨nofun, hnow, nofun⟩
  | timer hphase hwake =>
      refine ⟨nofun, hnow, fun _ => ?_⟩
      have hlatest := h.latest r hr
      simp only [idle, hphase] at hlatest
      exact (add_le_add_left hlatest minWake).trans ((h.asleep _ _ _ hphase).floor.trans hwake)

/-- The sleep before a cycle of the timer pays for it. -/
theorem Paced.rate_cons {trigger : Trigger} {kicked : Bool} (h : t.Paced interval start)
    (hready : t.Ready trigger kicked) (finished : Time) :
    ((⟨trigger, t.now, finished⟩ :: t.runs).countP (·.trigger = .timer) : Nat) * minWake ≤ t.now - start := by
  have hrate : t.count .timer * minWake ≤ t.now - start := h.rate.trans (Int.sub_le_sub_right h.idle_le _)
  cases hready with
  | first hphase => simpa [count] using hrate
  | kick hphase hkicked => simpa [count] using hrate
  | timer hphase hwake =>
      have hslept := (h.asleep _ _ _ hphase).floor.trans hwake
      have hbefore := h.rate
      simp only [idle, hphase, count] at hbefore
      simp only [List.countP_cons, decide_true, if_true, Nat.cast_add, Nat.cast_one, add_mul, one_mul]
      grind

theorem Paced.goes (h : t.Paced interval start) (hgoes : t.Goes interval t') : t'.Paced interval start := by
  cases hgoes with
  | waits => exact h
  | skips hkicked => exact h.rests rfl h.idle_le le_rfl nofun (by simp)
  | arms hphase =>
      refine h.rests rfl h.idle_le le_rfl nofun ?_
      rintro _ _ _ ⟨⟩
      exact awaits_nextWake interval t.now t.service.active
  | returns hcancelled => exact h.rests rfl h.idle_le le_rfl nofun (by simp)
  | @runs trigger kicked service took hcancelled hready =>
      have hends : t.now ≤ t.now + took := Int.le_add_of_nonneg_right (Int.natCast_nonneg took)
      refine ⟨le_rfl, nofun, by simp, List.isChain_cons.2 ⟨h.follows hready _, h.spaced⟩, by simp [idle], ?_⟩
      exact (h.rate_cons hready _).trans (Int.sub_le_sub_right hends _)

theorem Paced.step (h : t.Paced interval start) (hap : Happening) :
    (step rt cfg interval hap t).Paced interval start := by
  cases hap with
  | passes d =>
      have hlater : t.now ≤ t.now + d := Int.le_add_of_nonneg_right (Int.natCast_nonneg d)
      have hidle := h.idle_le
      obtain ⟨now, phase, kicked, cancelled, m, runs⟩ := t
      refine h.rests rfl ?_ ?_ id h.asleep
      · cases phase <;> first | exact le_rfl | exact hlater
      · cases phase <;> first | exact le_rfl | exact hidle.trans hlater
  | call c => exact h.rests rfl le_rfl h.idle_le id h.asleep
  | triggerRefresh => exact h.rests rfl le_rfl h.idle_le id h.asleep
  | stop => exact h.rests rfl le_rfl h.idle_le id h.asleep
  | goes pick inp took => exact h.goes (t.goes_go pick inp took)

theorem Paced.run (h : t.Paced interval start) (hs : List Happening) :
    (t.run rt cfg interval hs).Paced interval start :=
  Lib.runFrom_invariant (fun _ hap ht => ht.step hap) hs h

/-! ## Triggers -/

/-- How often the trigger channel is sent to. -/
def triggers (hs : List Happening) : Nat := hs.countP fun | .triggerRefresh => true | _ => false

/-- The triggers that the task has taken or can take. -/
def taken (t : Task) : Nat := t.count .kick + t.kicked.toNat

theorem Goes.taken_le (hgoes : t.Goes interval t') : t'.taken ≤ t.taken := by
  cases hgoes with
  | waits | arms | returns => exact le_rfl
  | skips hkicked => exact Nat.add_le_add_left (Bool.toNat_le_toNat hkicked) _
  | runs service took hcancelled hready =>
      cases hready with
      | first | timer => simp [taken, count]
      | kick hphase hkicked => simp [taken, count, hkicked]

theorem taken_step_le (hap : Happening) : (step rt cfg interval hap t).taken ≤ t.taken + triggers [hap] := by
  cases hap with
  | passes | call | stop => exact le_rfl
  | triggerRefresh => simp [step, taken, triggers, count]
  | goes pick inp took => exact (t.goes_go pick inp took).taken_le

theorem taken_run_le (hs : List Happening) : (t.run rt cfg interval hs).taken ≤ t.taken + triggers hs := by
  induction hs generalizing t with
  | nil => exact le_rfl
  | cons hap hs ih =>
      have hcons : triggers (hap :: hs) = triggers [hap] + triggers hs := by
        simp [triggers, List.countP_cons, Nat.add_comm]
      calc (t.run rt cfg interval (hap :: hs)).taken
          ≤ (step rt cfg interval hap t).taken + triggers hs := ih
        _ ≤ t.taken + triggers [hap] + triggers hs := Nat.add_le_add_right (taken_step_le hap) _
        _ = t.taken + triggers (hap :: hs) := by rw [hcons, Nat.add_assoc]

/-! ## Stopping -/

/-- Cancelled, having run these cycles. -/
def Stopped (runs : List Run) (t : Task) : Prop := t.cancelled = true ∧ t.runs = runs

theorem Stopped.goes {runs : List Run} (h : t.Stopped runs) (hgoes : t.Goes interval t') : t'.Stopped runs := by
  cases hgoes with
  | waits | skips | arms | returns => exact h
  | runs service took hcancelled hready => simp [h.1] at hcancelled

theorem Stopped.step {runs : List Run} (h : t.Stopped runs) (hap : Happening) :
    (step rt cfg interval hap t).Stopped runs := by
  cases hap with
  | passes | call | triggerRefresh => exact h
  | stop => exact ⟨rfl, h.2⟩
  | goes pick inp took => exact h.goes (t.goes_go pick inp took)

theorem Stopped.run {runs : List Run} (h : t.Stopped runs) (hs : List Happening) :
    (t.run rt cfg interval hs).Stopped runs :=
  Lib.runFrom_invariant (fun _ hap ht => ht.step hap) hs h

/-- Once the `select` sees the cancellation, the goroutine ends. -/
theorem Stopped.returns {runs : List Run} (h : t.Stopped runs) (inp : Service.RefreshInput) (took : Nat) :
    (t.run rt cfg interval (List.replicate 3 (.goes .done inp took))).phase = .returned := by
  obtain ⟨now, phase, kicked, cancelled, m, runs⟩ := t
  obtain ⟨rfl, rfl⟩ : cancelled = true ∧ _ := h
  cases phase with
  | starting => cases hactive : m.active <;> simp [Task.run, List.replicate, Task.step, Task.go, Task.cycle]
  | _ => simp [Task.run, List.replicate, Task.step, Task.go]

/-- Asleep past the timer, the task runs a cycle next unless it is stopped. -/
theorem runs_of_wake {armed wake : Time} {served : Option Snapshot} (hphase : t.phase = .sleeping armed served wake)
    (hwake : wake ≤ t.now) (hcancelled : t.cancelled = false) (inp : Service.RefreshInput) (took : Nat) :
    (t.go rt cfg interval .timer inp took).runs = ⟨.timer, t.now, t.now + took⟩ :: t.runs := by
  simp [go, hphase, hwake, cycle, hcancelled]

end Task

/-- Whatever happens, the cycles of the task do not overlap, at most one per minute is due to the timer, and none comes
without a trigger, a due timer or a service that serves nothing. A list that is due is waited for no longer than a
minute. A task that is stopped runs no further cycle and returns. -/
theorem refresh_task_paced (rt : Runtime) (cfg : Config) (interval : Duration) (m : Service) (start : Time)
    (hs : List Happening) :
    let t := ({ now := start, service := m } : Task).run rt cfg interval hs
    t.runs.IsChain Run.Follows ∧
    t.count .timer * minWake ≤ t.now - start ∧
    t.count .kick ≤ Task.triggers hs ∧
    (∀ armed served wake, t.phase = .sleeping armed served wake →
      Awaits interval armed served wake ∧
      (wake ≤ t.now → t.cancelled = false → ∀ inp took,
        (t.go rt cfg interval .timer inp took).runs = ⟨.timer, t.now, t.now + took⟩ :: t.runs)) ∧
    (t.cancelled = true →
      (∀ later, (t.run rt cfg interval later).runs = t.runs) ∧
      ∀ inp took, (t.run rt cfg interval (List.replicate 3 (.goes .done inp took))).phase = .returned) := by
  intro t
  have hstart : ({ now := start, service := m } : Task).Paced interval start :=
    ⟨le_rfl, fun _ => rfl, by simp, .nil, by simp, by simp [Task.count, Task.idle]⟩
  have hpaced : t.Paced interval start := hstart.run hs
  have htaken : t.taken ≤ 0 + Task.triggers hs := Task.taken_run_le hs
  refine ⟨hpaced.spaced, hpaced.rate.trans (Int.sub_le_sub_right hpaced.idle_le _), ?_, ?_, ?_⟩
  · exact (Nat.le_add_right _ _).trans (htaken.trans_eq (Nat.zero_add _))
  · intro armed served wake hphase
    exact ⟨hpaced.asleep _ _ _ hphase, Task.runs_of_wake hphase⟩
  · intro hcancelled
    have hstopped : t.Stopped t.runs := ⟨hcancelled, rfl⟩
    exact ⟨fun later => (hstopped.run later).2, hstopped.returns⟩

end TrustAnchor.Tasks
