import TrustAnchor.Ingest.Manager
import TrustAnchor.Store.Lemmas.Objects

/-!
# The backends compared

All backends hold the last snapshot that was saved. The object backends hold the last bootstrap set too,
PostgreSQL the last one of the highest version. A row is never lost; an object is lost to a later one
with its key.
-/

namespace TrustAnchor.Store

open Lib Trust

variable {c : Codec} {calls : List Call}

/-- What is marshalled comes back; of a snapshot all but the load report. -/
structure RoundTrips (c : Codec) : Prop where
  snapshot : ∀ s raw, c.marshalSnapshot s = .ok raw → c.unmarshalSnapshot raw = .ok { s with declaredLoad := none }
  bootstrap : ∀ b raw, c.marshalBootstrap b = .ok raw → c.unmarshalBootstrap raw = .ok b

/-- A JSON text that becomes a `jsonb` value is read as before. -/
structure KeepsJson (c : Codec) : Prop where
  snapshot : ∀ raw data, c.jsonb raw = .ok data → c.unmarshalSnapshot data = c.unmarshalSnapshot raw
  bootstrap : ∀ raw data, c.jsonb raw = .ok data → c.unmarshalBootstrap data = c.unmarshalBootstrap raw

theorem mem_savedSnapshots {s : Snapshot} : s ∈ savedSnapshots calls ↔ .saveSnapshot s ∈ calls := by
  simp only [savedSnapshots, List.mem_filterMap]
  constructor
  · rintro ⟨call, hcall, h⟩
    cases call <;> cases h
    exact hcall
  · intro h
    exact ⟨_, h, rfl⟩

theorem mem_savedBootstraps {b : Bootstrap} : b ∈ savedBootstraps calls ↔ .saveBootstrap b ∈ calls := by
  simp only [savedBootstraps, List.mem_filterMap]
  constructor
  · rintro ⟨call, hcall, h⟩
    cases call <;> cases h
    exact hcall
  · intro h
    exact ⟨_, h, rfl⟩

section Decoded

variable (hc : RoundTrips c) (hvalid : ∀ call ∈ calls, Valid c call)

include hc hvalid

theorem decoded_snapshot {s : Snapshot} (h : s ∈ savedSnapshots calls) :
    c.unmarshalSnapshot (rawSnapshot c s) = .ok { s with declaredLoad := none } := by
  obtain ⟨-, raw, hraw⟩ := hvalid _ (mem_savedSnapshots.1 h)
  have hbytes : rawSnapshot c s = raw := by simp [rawSnapshot, hraw, Except.toOption]
  rw [hbytes]
  exact hc.snapshot s raw hraw

theorem decoded_bootstrap {b : Bootstrap} (h : b ∈ savedBootstraps calls) :
    c.unmarshalBootstrap (rawBootstrap c b) = .ok b := by
  obtain ⟨raw, hraw⟩ := hvalid _ (mem_savedBootstraps.1 h)
  have hbytes : rawBootstrap c b = raw := by simp [rawBootstrap, hraw, Except.toOption]
  rw [hbytes]
  exact hc.bootstrap b raw hraw

end Decoded

/-! ## Latest objects -/

/-- The store that the manager works on: the last of each kind. -/
def latest (calls : List Call) : Ingest.Store where
  bootstrap := (savedBootstraps calls).getLast?
  snapshot := (savedSnapshots calls).getLast?.map fun s => { s with declaredLoad := none }

theorem Objects.get_eq {α β : Type} {objects : Objects} {key : String} {unmarshal : Bytes → Except String α}
    {last : Option β} {raw : β → Bytes} {value : β → α} (hlookup : objects.lookup key = last.map raw)
    (hdecode : ∀ b ∈ last, unmarshal (raw b) = .ok (value b)) :
    (get key unmarshal objects).1 = .ok (last.map value) := by
  unfold get
  rw [hlookup]
  cases last with
  | none => rfl
  | some b => simp [hdecode b rfl, Except.map]

theorem Objects.load_eq (hc : RoundTrips c) (hvalid : ∀ call ∈ calls, Valid c call) {objects : Objects}
    (h : Holds c calls objects) :
    (step c .loadLatestSnapshot objects).1 = .snapshot (.ok (latest calls).snapshot) ∧
      (step c .loadLatestBootstrap objects).1 = .bootstrap (.ok (latest calls).bootstrap) := by
  constructor
  · refine congrArg Reply.snapshot (get_eq h.latestSnapshot fun s hs => ?_)
    exact decoded_snapshot hc hvalid (List.mem_of_getLast? hs)
  · have hload : (get latestBootstrapKey c.unmarshalBootstrap objects).1 =
        .ok ((savedBootstraps calls).getLast?.map id) :=
      get_eq h.latestBootstrap fun b hb => decoded_bootstrap hc hvalid (List.mem_of_getLast? hb)
    rw [Option.map_id] at hload
    exact congrArg Reply.bootstrap hload

/-! ## Rows -/

/-- The `jsonb` value of what is saved, if there is one. -/
def snapshotData (c : Codec) (s : Snapshot) : Bytes := (c.jsonb (rawSnapshot c s)).toOption.getD []

def bootstrapData (c : Codec) (b : Bootstrap) : Bytes := (c.jsonb (rawBootstrap c b)).toOption.getD []

def bootstrapRow (c : Codec) (b : Bootstrap) : BootstrapRow := ⟨b.version, bootstrapData c b⟩

namespace Postgres

/-- All that is saved can be cast to the types of its columns. -/
def Storable (c : Codec) : Call → Prop
  | .saveSnapshot s => (∃ data, c.jsonb (rawSnapshot c s) = .ok data ∧ c.timestamptz "generatedAt" data = none) ∧
      isBigint s.lotlSequence
  | .saveBootstrap b => (∃ data, c.jsonb (rawBootstrap c b) = .ok data ∧ c.timestamptz "activatedAt" data = none) ∧
      isInteger b.version
  | _ => True

/-- One row for each save. -/
structure Rows (c : Codec) (calls : List Call) (p : Postgres) : Prop where
  snapshots : p.snapshot.contents = (savedSnapshots calls).map (snapshotData c)
  bootstraps : p.bootstrap.contents = (savedBootstraps calls).map (bootstrapRow c)

theorem saveSnapshot_storable {s : Snapshot} (h : Valid c (.saveSnapshot s)) (hs : Storable c (.saveSnapshot s))
    (p : Postgres) :
    saveSnapshot c s p = (.ok (), { p with snapshot := p.snapshot.insert (snapshotData c s) }) := by
  obtain ⟨hid, raw, hraw⟩ := h
  obtain ⟨⟨data, hdata, htime⟩, hsequence⟩ := hs
  have hne : s.id ≠ "" := by
    intro hempty
    simp [hempty] at hid
  have hbytes : rawSnapshot c s = raw := by simp [rawSnapshot, hraw, Except.toOption]
  rw [hbytes] at hdata
  simp [saveSnapshot, call, hraw, hdata, hne, htime, hsequence, snapshotData, hbytes, Except.toOption]

theorem saveBootstrap_storable {b : Bootstrap} (h : Valid c (.saveBootstrap b)) (hb : Storable c (.saveBootstrap b))
    (p : Postgres) :
    saveBootstrap c b p = (.ok (), { p with bootstrap := p.bootstrap.insert (bootstrapRow c b) }) := by
  obtain ⟨raw, hraw⟩ := h
  obtain ⟨⟨data, hdata, htime⟩, hinteger⟩ := hb
  have hbytes : rawBootstrap c b = raw := by simp [rawBootstrap, hraw, Except.toOption]
  rw [hbytes] at hdata
  simp [saveBootstrap, call, hraw, hdata, htime, hinteger, bootstrapRow, bootstrapData, hbytes, Except.toOption]

/-- What is saved without an error can be cast. -/
theorem storable_of_saveSnapshot {s : Snapshot} {p : Postgres} (h : (saveSnapshot c s p).1 = .ok ()) :
    Storable c (.saveSnapshot s) := by
  cases hraw : c.marshalSnapshot s with
  | error e => simp [saveSnapshot, call, hraw] at h
  | ok raw =>
      have hbytes : rawSnapshot c s = raw := by simp [rawSnapshot, hraw, Except.toOption]
      cases hdata : c.jsonb raw with
      | error e => simp [saveSnapshot, call, hraw, hdata] at h
      | ok data =>
          simp only [saveSnapshot, call, hraw, hdata] at h
          cases htime : c.timestamptz "generatedAt" data with
          | some e =>
              simp only [htime] at h
              split_ifs at h <;> cases h
          | none =>
              simp only [htime] at h
              split_ifs at h with hid hsequence
              · cases h
              · exact ⟨⟨data, by rw [hbytes, hdata], htime⟩, hsequence⟩
              · cases h

theorem storable_of_saveBootstrap {b : Bootstrap} {p : Postgres} (h : (saveBootstrap c b p).1 = .ok ()) :
    Storable c (.saveBootstrap b) := by
  cases hraw : c.marshalBootstrap b with
  | error e => simp [saveBootstrap, call, hraw] at h
  | ok raw =>
      have hbytes : rawBootstrap c b = raw := by simp [rawBootstrap, hraw, Except.toOption]
      cases hdata : c.jsonb raw with
      | error e => simp [saveBootstrap, call, hraw, hdata] at h
      | ok data =>
          simp only [saveBootstrap, call, hraw, hdata] at h
          split_ifs at h with hinteger
          · cases htime : c.timestamptz "activatedAt" data with
            | some e => simp [htime] at h
            | none => exact ⟨⟨data, by rw [hbytes, hdata], htime⟩, hinteger⟩
          · cases h

theorem Rows.step {p : Postgres} (h : Rows c calls p) {call : Call} (hvalid : Valid c call)
    (hstorable : Storable c call) : Rows c (calls ++ [call]) (advance (step c) call p) := by
  cases call with
  | saveSnapshot s =>
      have hstate : advance (Postgres.step c) (.saveSnapshot s) p =
          { p with snapshot := p.snapshot.insert (snapshotData c s) } := by
        simp [advance, Postgres.step, saveSnapshot_storable hvalid hstorable]
      rw [hstate]
      exact ⟨by simp [savedSnapshots, h.snapshots], by simpa [savedBootstraps] using h.bootstraps⟩
  | saveBootstrap b =>
      have hstate : advance (Postgres.step c) (.saveBootstrap b) p =
          { p with bootstrap := p.bootstrap.insert (bootstrapRow c b) } := by
        simp [advance, Postgres.step, saveBootstrap_storable hvalid hstorable]
      rw [hstate]
      exact ⟨by simpa [savedSnapshots] using h.snapshots, by simp [savedBootstraps, h.bootstraps]⟩
  | loadLatestSnapshot =>
      change Rows c (calls ++ [.loadLatestSnapshot]) p
      exact ⟨by simpa [savedSnapshots] using h.snapshots, by simpa [savedBootstraps] using h.bootstraps⟩
  | loadLatestBootstrap =>
      change Rows c (calls ++ [.loadLatestBootstrap]) p
      exact ⟨by simpa [savedSnapshots] using h.snapshots, by simpa [savedBootstraps] using h.bootstraps⟩

theorem rows_run (hvalid : ∀ call ∈ calls, Valid c call) (hstorable : ∀ call ∈ calls, Storable c call) :
    Rows c calls (runFrom (advance (step c)) calls {}) := by
  induction calls using List.reverseRecOn with
  | nil => exact ⟨rfl, rfl⟩
  | append_singleton calls call ih =>
      rw [runFrom, List.foldl_append]
      have ih := ih (fun call' hcall' => hvalid call' (List.mem_append_left _ hcall'))
        fun call' hcall' => hstorable call' (List.mem_append_left _ hcall')
      exact ih.step (hvalid call (by simp)) (hstorable call (by simp))

section Loads

variable (hc : RoundTrips c) (hj : KeepsJson c) (hvalid : ∀ call ∈ calls, Valid c call)
  (hstorable : ∀ call ∈ calls, Storable c call)

include hc hj hvalid hstorable

theorem decoded_snapshotData {s : Snapshot} (h : s ∈ savedSnapshots calls) :
    c.unmarshalSnapshot (snapshotData c s) = .ok { s with declaredLoad := none } := by
  obtain ⟨⟨data, hdata, -⟩, -⟩ := hstorable _ (mem_savedSnapshots.1 h)
  have hbytes : snapshotData c s = data := by simp [snapshotData, hdata, Except.toOption]
  rw [hbytes, hj.snapshot _ data hdata, decoded_snapshot hc hvalid h]

theorem decoded_bootstrapData {b : Bootstrap} (h : b ∈ savedBootstraps calls) :
    c.unmarshalBootstrap (bootstrapData c b) = .ok b := by
  obtain ⟨⟨data, hdata, -⟩, -⟩ := hstorable _ (mem_savedBootstraps.1 h)
  have hbytes : bootstrapData c b = data := by simp [bootstrapData, hdata, Except.toOption]
  rw [hbytes, hj.bootstrap _ data hdata, decoded_bootstrap hc hvalid h]

theorem load_snapshot {p : Postgres} (h : Rows c calls p) :
    (step c .loadLatestSnapshot p).1 = .snapshot (.ok (latest calls).snapshot) := by
  refine congrArg Reply.snapshot ?_
  unfold decode latest
  rw [Table.newest_eq, h.snapshots, List.getLast?_map]
  cases hlast : (savedSnapshots calls).getLast? with
  | none => rfl
  | some s => simp [decoded_snapshotData hc hj hvalid hstorable (List.mem_of_getLast? hlast)]

/-- The last bootstrap set has the highest version of all before it. -/
def LastHighest (calls : List Call) : Prop :=
  ∀ b ∈ (savedBootstraps calls).getLast?, ∀ b' ∈ savedBootstraps calls, b'.version ≤ b.version

theorem load_bootstrap_iff {p : Postgres} (h : Rows c calls p) :
    (step c .loadLatestBootstrap p).1 = .bootstrap (.ok (latest calls).bootstrap) ↔ LastHighest calls := by
  have hreply : (step c .loadLatestBootstrap p).1 = .bootstrap (decode "bootstrap" c.unmarshalBootstrap
      ((p.bootstrap.highest BootstrapRow.version).map BootstrapRow.content)) := rfl
  rw [hreply, Reply.bootstrap.injEq]
  constructor
  · intro heq b hb b' hb'
    have hb : (savedBootstraps calls).getLast? = some b := hb
    cases hrow : p.bootstrap.highest BootstrapRow.version with
    | none => simp [hrow, decode, latest, hb] at heq
    | some row =>
        obtain ⟨hmem, hmax⟩ := Table.rank_le_highest hrow
        rw [h.bootstraps] at hmem hmax
        obtain ⟨b₀, hb₀, rfl⟩ := List.mem_map.1 hmem
        -- the row of the highest version decodes to the last set
        obtain rfl : b₀ = b := by
          simpa [hrow, decode, latest, hb, bootstrapRow,
            decoded_bootstrapData hc hj hvalid hstorable hb₀] using heq
        exact hmax _ (List.mem_map_of_mem hb')
  · intro hlast
    have hhighest : p.bootstrap.highest BootstrapRow.version = p.bootstrap.contents.getLast? := by
      refine Table.highest_eq ?_
      rw [h.bootstraps, List.getLast?_map]
      intro row hrow row' hrow'
      obtain ⟨b, hb, rfl⟩ := Option.mem_map.1 hrow
      obtain ⟨b', hb', rfl⟩ := List.mem_map.1 hrow'
      exact hlast b hb b' hb'
    rw [hhighest, h.bootstraps, List.getLast?_map]
    unfold decode latest
    cases hb : (savedBootstraps calls).getLast? with
    | none => rfl
    | some b => simp [bootstrapRow, decoded_bootstrapData hc hj hvalid hstorable (List.mem_of_getLast? hb)]

end Loads

end Postgres

/-! ## Agreement -/

/-- The objects of a directory. -/
def versions (dir : String) (objects : Objects) : List Bytes :=
  (objects.filter fun e => under dir e.1).map Prod.snd

/-- The objects and the rows after the calls. -/
def Objects.after (c : Codec) (calls : List Call) : Objects := runFrom (advance (Objects.step c)) calls []

def Postgres.after (c : Codec) (calls : List Call) : Postgres := runFrom (advance (Postgres.step c)) calls {}

/-- Each backend has one entry for each save, as it was saved. -/
structure OneEntryPerSave (c : Codec) (calls : List Call) : Prop where
  snapshotObjects : versions snapshotDir (Objects.after c calls) = (savedSnapshots calls).map (rawSnapshot c)
  bootstrapObjects : versions bootstrapDir (Objects.after c calls) = (savedBootstraps calls).map (rawBootstrap c)
  snapshotRows : (Postgres.after c calls).snapshot.contents = (savedSnapshots calls).map (snapshotData c)
  bootstrapRows : (Postgres.after c calls).bootstrap.contents = (savedBootstraps calls).map (bootstrapRow c)

/-- All that is saved can be cast to the columns, no two snapshots are saved under one key and no version is
saved twice, and a bootstrap set is only loaded while the last one has the highest version. -/
structure Ascending (c : Codec) (calls : List Call) : Prop where
  storable : ∀ call ∈ calls, Postgres.Storable c call
  keys : ((savedSnapshots calls).map (snapshotKey c)).Nodup
  versions : ((savedBootstraps calls).map Bootstrap.version).Nodup
  loads : ∀ before after, calls = before ++ .loadLatestBootstrap :: after → Postgres.LastHighest before

theorem snapshotObjects_iff (hvalid : ∀ call ∈ calls, Valid c call) :
    versions snapshotDir (Objects.after c calls) = (savedSnapshots calls).map (rawSnapshot c) ↔
      ((savedSnapshots calls).map (snapshotKey c)).Nodup := by
  have hkeys : (savedSnapshots calls).map (snapshotKey c) =
      (((savedSnapshots calls).map (snapshotObject c)).map Prod.fst).map some := by
    rw [List.map_map, List.map_map]
    refine List.map_congr_left fun s hs => ?_
    obtain ⟨hid, -⟩ := hvalid _ (mem_savedSnapshots.1 hs)
    simp [snapshotObject, snapshotKey, hid]
  rw [versions, Objects.after, (Objects.holds_run hvalid).snapshots, hkeys,
    List.nodup_map_iff (Option.some_injective String), ← foldl_mapInsert_eq_iff, List.map_map (f := snapshotObject c)]
  rfl

theorem bootstrapObjects_iff (hvalid : ∀ call ∈ calls, Valid c call) :
    versions bootstrapDir (Objects.after c calls) = (savedBootstraps calls).map (rawBootstrap c) ↔
      ((savedBootstraps calls).map Bootstrap.version).Nodup := by
  have hkeys : ((savedBootstraps calls).map Bootstrap.version).Nodup ↔
      (((savedBootstraps calls).map (bootstrapObject c)).map Prod.fst).Nodup := by
    rw [List.map_map]
    refine (List.pairwise_map.trans ?_).trans List.pairwise_map.symm
    exact List.Pairwise.iff fun b b' => not_congr bootstrapKey_inj.symm
  rw [versions, Objects.after, (Objects.holds_run hvalid).bootstraps, hkeys, ← foldl_mapInsert_eq_iff,
    List.map_map]
  rfl

/-- A save has the same reply exactly if PostgreSQL can store what is saved. -/
theorem storable_of_agree {call : Call} (hcall : Valid c call) {objects : Objects} {p : Postgres}
    (h : (Objects.step c call objects).1 = (Postgres.step c call p).1) : Postgres.Storable c call := by
  cases call with
  | saveSnapshot s =>
      obtain ⟨key, -, hsave⟩ := Objects.saveSnapshot_valid hcall
      simp only [Objects.step, Postgres.step, hsave, Prod.map_fst, Reply.saved.injEq] at h
      exact Postgres.storable_of_saveSnapshot h.symm
  | saveBootstrap b =>
      simp only [Objects.step, Postgres.step, Objects.saveBootstrap_valid hcall, Prod.map_fst, Reply.saved.injEq] at h
      exact Postgres.storable_of_saveBootstrap h.symm
  | loadLatestSnapshot => trivial
  | loadLatestBootstrap => trivial

section Agree

variable (hc : RoundTrips c) (hj : KeepsJson c) (hvalid : ∀ call ∈ calls, Valid c call)

include hc hj hvalid

/-- The replies to one call. -/
theorem step_agree_iff (hstorable : ∀ call ∈ calls, Postgres.Storable c call) {call : Call} (hcall : Valid c call)
    (hcallStorable : Postgres.Storable c call) :
    (Objects.step c call (Objects.after c calls)).1 = (Postgres.step c call (Postgres.after c calls)).1 ↔
      (call = .loadLatestBootstrap → Postgres.LastHighest calls) := by
  have hobjects := Objects.load_eq hc hvalid (Objects.holds_run hvalid)
  have hrows : Postgres.Rows c calls (Postgres.after c calls) := Postgres.rows_run hvalid hstorable
  cases call with
  | saveSnapshot s =>
      obtain ⟨key, -, hsave⟩ := Objects.saveSnapshot_valid hcall
      refine iff_of_true ?_ nofun
      simp [Objects.step, Postgres.step, hsave, Postgres.saveSnapshot_storable hcall hcallStorable]
  | loadLatestSnapshot =>
      refine iff_of_true ?_ nofun
      exact hobjects.1.trans (Postgres.load_snapshot hc hj hvalid hstorable hrows).symm
  | saveBootstrap b =>
      refine iff_of_true ?_ nofun
      simp [Objects.step, Postgres.step, Objects.saveBootstrap_valid hcall,
        Postgres.saveBootstrap_storable hcall hcallStorable]
  | loadLatestBootstrap =>
      have hload := hobjects.2
      rw [← Postgres.load_bootstrap_iff hc hj hvalid hstorable hrows, ← hload]
      exact ⟨fun heq _ => heq.symm, fun heq => (heq rfl).symm⟩

theorem replies_agree_iff : replies (Objects.step c) calls [] = replies (Postgres.step c) calls {} ↔
    (∀ call ∈ calls, Postgres.Storable c call) ∧
      ∀ before after, calls = before ++ .loadLatestBootstrap :: after → Postgres.LastHighest before := by
  have hbefore : ∀ before call after, calls = before ++ call :: after →
      (∀ call' ∈ before, Valid c call') ∧ Valid c call := by
    rintro before call after rfl
    exact ⟨fun call' hcall' => hvalid call' (by simp [hcall']), hvalid call (by simp)⟩
  rw [replies_eq_iff]
  constructor
  · intro h
    have hstorable : ∀ call ∈ calls, Postgres.Storable c call := by
      intro call hcall
      obtain ⟨before, after, heq⟩ := List.append_of_mem hcall
      exact storable_of_agree (hvalid call hcall) (h before call after heq)
    refine ⟨hstorable, fun before after heq => ?_⟩
    obtain ⟨hvalid', hcall⟩ := hbefore _ _ _ heq
    refine (step_agree_iff hc hj hvalid' (fun call' hcall' => ?_) hcall trivial).1 (h before _ after heq) rfl
    exact hstorable call' (by simp [heq, hcall'])
  · rintro ⟨hstorable, hloads⟩ before call after heq
    obtain ⟨hvalid', hcall⟩ := hbefore _ _ _ heq
    refine (step_agree_iff hc hj hvalid' (fun call' hcall' => ?_) hcall (hstorable call (by simp [heq]))).2 ?_
    · exact hstorable call' (by simp [heq, hcall'])
    · rintro rfl
      exact hloads before after heq

/-- The backends reply alike and keep every save exactly if PostgreSQL can store what is saved, keys and versions
are not used twice and bootstrap sets are loaded in ascending order. -/
theorem backends_agree_iff :
    (replies (Objects.step c) calls [] = replies (Postgres.step c) calls {} ∧ OneEntryPerSave c calls) ↔
      Ascending c calls := by
  rw [replies_agree_iff hc hj hvalid]
  constructor
  · rintro ⟨⟨hstorable, hloads⟩, hentries⟩
    exact ⟨hstorable, (snapshotObjects_iff hvalid).1 hentries.snapshotObjects,
      (bootstrapObjects_iff hvalid).1 hentries.bootstrapObjects, hloads⟩
  · rintro ⟨hstorable, hkeys, hversions, hloads⟩
    have hrows := Postgres.rows_run hvalid hstorable
    exact ⟨⟨hstorable, hloads⟩, (snapshotObjects_iff hvalid).2 hkeys, (bootstrapObjects_iff hvalid).2 hversions,
      hrows.snapshots, hrows.bootstraps⟩

end Agree

/-! ## A small codec -/

/-- Snapshots that differ in the sequence number only. -/
def sample (n : Nat) : Snapshot :=
  { id := "0123456789abcdef", prevID := "", generatedAt := 0, lotlSequence := n, lotlIssueTime := 0
    lotlNextUpdate := none, lotlSignersDER := [], lotlPivotSeq := 0, lotlDigest := "", lotlPointers := []
    advertisedOJ := "", bootstrapOJRef := "", bootstrapVersion := 1, territories := [], internal := []
    pending := [], diff := none, declaredLoad := none }

def sampleBootstrap (n : Nat) : Bootstrap := ⟨n, "", []⟩

/-- The samples are marshalled to one byte. -/
def sampleCodec : Codec where
  marshalSnapshot s := if s = sample s.lotlSequence.toUInt8.toNat then .ok [s.lotlSequence.toUInt8] else .error "no sample"
  unmarshalSnapshot raw := .ok (sample (raw.headD 0).toNat)
  marshalBootstrap b :=
    if b = sampleBootstrap b.version.toNat.toUInt8.toNat then .ok [b.version.toNat.toUInt8] else .error "no sample"
  unmarshalBootstrap raw := .ok (sampleBootstrap (raw.headD 0).toNat)
  formatKeyTime t := toString t
  jsonb := .ok
  timestamptz _ _ := none

theorem sampleCodec_roundTrips : RoundTrips sampleCodec where
  snapshot s raw h := by
    simp only [sampleCodec] at h
    split_ifs at h with hs
    cases h
    have hsample : ({ s with declaredLoad := none } : Snapshot) = s := by
      rw [hs]
      rfl
    rw [hsample]
    exact congrArg Except.ok hs.symm
  bootstrap b raw h := by
    simp only [sampleCodec] at h
    split_ifs at h with hb
    cases h
    exact congrArg Except.ok hb.symm

theorem sampleCodec_keepsJson : KeepsJson sampleCodec where
  snapshot _ _ h := by cases h; rfl
  bootstrap _ _ h := by cases h; rfl

/-- Two snapshots of one second with one id, and a version after a higher one. -/
def descending : List Call :=
  [.saveSnapshot (sample 1), .saveSnapshot (sample 2), .saveBootstrap (sampleBootstrap 2),
    .saveBootstrap (sampleBootstrap 1), .loadLatestBootstrap]

theorem sample_valid : ∀ n ∈ [1, 2],
    Valid sampleCodec (.saveSnapshot (sample n)) ∧ Valid sampleCodec (.saveBootstrap (sampleBootstrap n)) := by
  intro n hn
  rcases List.mem_pair.1 hn with rfl | rfl
  · exact ⟨⟨by decide, [1], by decide⟩, [1], by decide⟩
  · exact ⟨⟨by decide, [2], by decide⟩, [2], by decide⟩

/-- The backends disagree on the bootstrap set, and the objects have one snapshot of the two. -/
theorem backends_agree_descending :
    (∀ call ∈ descending, Valid sampleCodec call) ∧
      replies (Objects.step sampleCodec) descending [] ≠ replies (Postgres.step sampleCodec) descending {} ∧
      (versions snapshotDir (Objects.after sampleCodec descending)).length = 1 ∧
      (Postgres.after sampleCodec descending).snapshot.contents.length = 2 := by
  refine ⟨?_, by decide +kernel⟩
  have h1 := sample_valid 1 (by simp)
  have h2 := sample_valid 2 (by simp)
  simp only [descending, List.forall_mem_cons]
  exact ⟨h1.1, h2.1, h2.2, h1.2, trivial, by simp⟩

/-- Ascending versions, and one snapshot. -/
def ascending : List Call :=
  [.saveSnapshot (sample 1), .saveBootstrap (sampleBootstrap 1), .saveBootstrap (sampleBootstrap 2),
    .loadLatestBootstrap]

theorem backends_agree_ascending :
    replies (Objects.step sampleCodec) ascending [] = replies (Postgres.step sampleCodec) ascending {} ∧
      OneEntryPerSave sampleCodec ascending := by
  have h1 := sample_valid 1 (by simp)
  have h2 := sample_valid 2 (by simp)
  have hvalid : ∀ call ∈ ascending, Valid sampleCodec call := by
    simp only [ascending, List.forall_mem_cons]
    exact ⟨h1.1, h1.2, h2.2, trivial, by simp⟩
  have hstorable : ∀ call ∈ ascending, Postgres.Storable sampleCodec call := by
    simp only [ascending, List.forall_mem_cons]
    exact ⟨⟨⟨_, rfl, rfl⟩, by decide⟩, ⟨⟨_, rfl, rfl⟩, by decide⟩, ⟨⟨_, rfl, rfl⟩, by decide⟩, trivial, by simp⟩
  refine (backends_agree_iff sampleCodec_roundTrips sampleCodec_keepsJson hvalid).2
    ⟨hstorable, by decide +kernel, by decide, ?_⟩
  intro before after heq
  obtain ⟨rfl, -⟩ : before = ascending.dropLast ∧ after = [] := by
    rcases before with _ | ⟨_, _ | ⟨_, _ | ⟨_, _ | ⟨_, _⟩⟩⟩⟩ <;> simp_all [ascending]
  intro b hb b' hb'
  have hall : ∀ b ∈ (savedBootstraps ascending.dropLast).getLast?,
      ∀ b' ∈ savedBootstraps ascending.dropLast, b'.version ≤ b.version := by decide
  exact hall b hb b' hb'

end TrustAnchor.Store
