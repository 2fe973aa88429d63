import IpfsNode.CollectionPass
import IpfsNode.GcRun

/-!
# What a collection pass comes to

Each phase of a pass, executed with nothing else running: the state it leaves
and what it reports, as functions of the state it starts from. Recovery leaves
`clearTokens`, the handover leaves `dropCopies`, and the collection reports its
plan, in a dry run and in a real one.
-/

namespace IpfsNode

/-! ## The listing -/

section Records

variable {Cid : Type} [DecidableEq Cid] {listing : Listing Cid} {files files' : Registry Cid}
variable {record : FileRecord Cid}

theorem Registry.mem_keys {cid : Cid} :
    cid ∈ files.entries.map (·.cid) ↔ (files.get cid).isSome = true := by
  rw [List.mem_map, Option.isSome_iff_exists]
  constructor
  · rintro ⟨record, hmem, rfl⟩
    exact ⟨record, Registry.get_of_mem hmem⟩
  · rintro ⟨record, hget⟩
    exact ⟨record, Registry.mem_of_get hget, Registry.cid_of_get hget⟩

theorem Listing.mem_order {cid : Cid} :
    cid ∈ listing.order (files.entries.map (·.cid)) ↔ (files.get cid).isSome = true :=
  (listing.perm _).mem_iff.trans Registry.mem_keys

theorem Listing.mem_records :
    record ∈ listing.records files ↔ files.get record.cid = some record := by
  unfold Listing.records
  rw [List.mem_filterMap]
  constructor
  · rintro ⟨cid, -, hget⟩
    rwa [Registry.cid_of_get hget]
  · intro hget
    exact ⟨record.cid, Listing.mem_order.mpr (by rw [hget]; rfl), hget⟩

theorem Listing.map_cid_records :
    (listing.records files).map (·.cid) = listing.order (files.entries.map (·.cid)) := by
  unfold Listing.records
  rw [List.map_filterMap]
  refine (List.filterMap_congr fun cid hmem => ?_).trans List.filterMap_some
  obtain ⟨record, hget⟩ := Option.isSome_iff_exists.mp (Listing.mem_order.mp hmem)
  rw [hget, Option.map_some, Registry.cid_of_get hget]

theorem Listing.nodup_records : ((listing.records files).map (·.cid)).Nodup := by
  rw [Listing.map_cid_records]
  exact (listing.perm _).nodup_iff.mpr files.keyed

/-- Work that adds and removes no record leaves the order of the listing. -/
theorem Listing.records_eq_map
    (hkeys : ∀ cid, (files'.get cid).isSome = (files.get cid).isSome) :
    listing.records files' =
      (listing.records files).map fun record => (files'.get record.cid).getD record := by
  have horder : listing.order (files'.entries.map (·.cid)) =
      listing.order (files.entries.map (·.cid)) := by
    refine listing.canonical _ _ ((List.perm_ext_iff_of_nodup files'.keyed files.keyed).mpr ?_)
    intro cid
    rw [Registry.mem_keys, Registry.mem_keys, hkeys]
  unfold Listing.records
  rw [horder, List.map_filterMap]
  refine List.filterMap_congr fun cid hmem => ?_
  have hsome := Listing.mem_order.mp hmem
  obtain ⟨record, hget⟩ := Option.isSome_iff_exists.mp hsome
  obtain ⟨record', hget'⟩ := Option.isSome_iff_exists.mp ((hkeys cid).trans hsome)
  rw [hget, Option.map_some, Registry.cid_of_get hget, hget']
  rfl

end Records

/-! ## Recovery -/

section Recovery

variable {Cid : Type} [LinearOrder Cid] {env : Surroundings Cid} {w : World Cid}
variable {record : FileRecord Cid} {records : List (FileRecord Cid)} {cid : Cid}

theorem run_locked {o : LocalOp Cid} :
    Prog.run (serveLocal env) (locked o) w = serveLocal env (.run o) w :=
  Prog.run_perform

/-- The upload that left its token on the record is over. -/
def isInterrupted (proc : Process Cid) (record : FileRecord Cid) : Bool :=
  record.admissionId.isSome && !isAdmissionSettled record
    && !proc.isActiveAdmission record.admissionId

def World.saved (w : World Cid) (record : FileRecord Cid) : World Cid :=
  if h : isFileRecord record = true then w.put record h else w

theorem World.saved_valid (h : isFileRecord record = true) : w.saved record = w.put record h :=
  dif_pos h

theorem World.proc_saved : (w.saved record).proc = w.proc := by
  unfold World.saved
  split <;> rfl

theorem World.get_saved_of_ne (hne : cid ≠ record.cid) :
    (w.saved record).files.get cid = w.files.get cid := by
  unfold World.saved
  split
  · exact World.get_put_of_ne _ hne
  · rfl

/-- The tokens of the files cleared, one after the other. -/
def clearTokens (w : World Cid) : List (FileRecord Cid) → World Cid
  | [] => w
  | record :: records => clearTokens (w.saved record.withoutAdmission) records

theorem proc_clearTokens : (clearTokens w records).proc = w.proc := by
  induction records generalizing w with
  | nil => rfl
  | cons record records ih => exact ih.trans World.proc_saved

theorem get_clearTokens_of_notMem (h : cid ∉ records.map (·.cid)) :
    (clearTokens w records).files.get cid = w.files.get cid := by
  induction records generalizing w with
  | nil => rfl
  | cons record records ih =>
      rw [List.map_cons, List.mem_cons, not_or] at h
      exact (ih h.2).trans (World.get_saved_of_ne h.1)

theorem get_clearTokens_of_mem (hnodup : (records.map (·.cid)).Nodup)
    (hvalid : ∀ record ∈ records, isFileRecord record = true) (hmem : record ∈ records) :
    ∃ n, (clearTokens w records).files.get record.cid =
      some (record.withoutAdmission.stamped n) := by
  induction records generalizing w with
  | nil => cases hmem
  | cons first records ih =>
      rw [List.map_cons, List.nodup_cons] at hnodup
      rcases List.mem_cons.mp hmem with rfl | hmem
      · refine ⟨w.nextRevision, (get_clearTokens_of_notMem hnodup.1).trans ?_⟩
        rw [World.saved_valid (isFileRecord_withoutAdmission (hvalid _ List.mem_cons_self))]
        exact World.get_put.trans (if_pos rfl)
      · exact ih hnodup.2 (fun record hmem => hvalid record (List.mem_cons_of_mem _ hmem)) hmem

/-- A candidate loses its token. -/
theorem run_recoverInterruptedAdmission (env : Surroundings Cid)
    (hget : w.files.get record.cid = some record)
    (hinterrupted : isInterrupted w.proc record = true) :
    Prog.run (serve env.content) (recoverInterruptedAdmission record.cid) w =
      (.ok true, w.saved record.withoutAdmission) := by
  have hvalid := isFileRecord_withoutAdmission (Registry.valid_of_get hget)
  unfold isInterrupted at hinterrupted
  simp only [Bool.and_eq_true, Bool.not_eq_true'] at hinterrupted
  obtain ⟨⟨hid, hsettled⟩, hactive⟩ := hinterrupted
  unfold recoverInterruptedAdmission
  rw [Prog.run_bind_ok run_get, hget]
  dsimp only
  have hsome := Option.isNone_eq_false_iff.mpr hid
  rw [Prog.run_bind_ok run_process, if_neg (by simp [hsettled, hactive, hsome]),
    Prog.run_bind_ok (run_save hvalid), World.saved_valid hvalid]
  rfl

theorem run_recoverEach (hnodup : (records.map (·.cid)).Nodup)
    (h : ∀ record ∈ records, w.files.get record.cid = some record ∧
      isInterrupted w.proc record = true) :
    Prog.run (serveLocal env) (recoverEach records) w = (.ok (), clearTokens w records) := by
  induction records generalizing w with
  | nil => rfl
  | cons record records ih =>
      rw [List.map_cons, List.nodup_cons] at hnodup
      obtain ⟨hget, hinterrupted⟩ := h record List.mem_cons_self
      have hfirst : Prog.run (serveLocal env)
          (Prog.attempt (locked (.recoverInterruptedAdmission record.cid))) w =
          (.ok (.ok true), w.saved record.withoutAdmission) := by
        have hrun := run_recoverInterruptedAdmission env hget hinterrupted
        rw [Prog.run_attempt, run_locked]
        exact congrArg (fun done => (Except.ok done.1, done.2)) hrun
      unfold recoverEach
      rw [Prog.run_bind_ok hfirst]
      refine ih hnodup.2 fun other hmem => ?_
      have hne : other.cid ≠ record.cid := fun heq =>
        hnodup.1 (heq ▸ List.mem_map_of_mem hmem)
      obtain ⟨hget', hinterrupted'⟩ := h other (List.mem_cons_of_mem _ hmem)
      have hne' : other.cid ≠ record.withoutAdmission.cid := hne
      rw [World.proc_saved]
      exact ⟨(World.get_saved_of_ne hne').trans hget', hinterrupted'⟩

/-- The node after its interrupted uploads were recovered. -/
def Surroundings.recovered (env : Surroundings Cid) (w : World Cid) : World Cid :=
  clearTokens w (interruptedAdmissions (env.scan w))

theorem mem_interruptedAdmissions : record ∈ interruptedAdmissions (env.scan w) ↔
    w.files.get record.cid = some record ∧ isInterrupted w.proc record = true :=
  List.mem_filter.trans (and_congr_left' Listing.mem_records)

theorem nodup_interruptedAdmissions :
    ((interruptedAdmissions (env.scan w)).map (·.cid)).Nodup :=
  (List.filter_sublist.map _).nodup Listing.nodup_records

theorem run_recoverInterruptedAdmissions :
    Prog.run (serveLocal env) recoverInterruptedAdmissions w = (.ok (), env.recovered w) := by
  have hscan : Prog.run (serveLocal env) (locked .scanRegistry) w = (.ok (env.scan w), w) :=
    run_locked
  unfold recoverInterruptedAdmissions
  rw [Prog.run_bind_ok hscan]
  exact run_recoverEach nodup_interruptedAdmissions fun _ => mem_interruptedAdmissions.mp

theorem proc_recovered : (env.recovered w).proc = w.proc := proc_clearTokens

/-- What recovery makes of a record: only a leftover token is gone. -/
structure Recovers (proc : Process Cid) (record after : FileRecord Cid) : Prop where
  cleared : isInterrupted proc record = true → ∃ n, after = record.withoutAdmission.stamped n
  same : isInterrupted proc record = false → after = record

theorem get_recovered (env : Surroundings Cid) (hget : w.files.get cid = some record) :
    ∃ after, (env.recovered w).files.get cid = some after ∧ Recovers w.proc record after := by
  obtain rfl := Registry.cid_of_get hget
  cases hinterrupted : isInterrupted w.proc record with
  | true =>
      have hmem : record ∈ interruptedAdmissions (env.scan w) :=
        mem_interruptedAdmissions.mpr ⟨hget, hinterrupted⟩
      obtain ⟨n, hafter⟩ := get_clearTokens_of_mem (w := w) nodup_interruptedAdmissions
        (fun other hother => Registry.valid_of_get (mem_interruptedAdmissions.mp hother).1) hmem
      exact ⟨_, hafter, fun _ => ⟨n, rfl⟩, fun h => Bool.noConfusion (h.symm.trans hinterrupted)⟩
  | false =>
      refine ⟨record, (get_clearTokens_of_notMem fun hmem => ?_).trans hget,
        fun h => Bool.noConfusion (h.symm.trans hinterrupted), fun _ => rfl⟩
      obtain ⟨other, hother, hcid⟩ := List.mem_map.mp hmem
      obtain ⟨hget', hinterrupted'⟩ := mem_interruptedAdmissions.mp hother
      rw [hcid, hget] at hget'
      cases hget'
      exact Bool.noConfusion (hinterrupted'.symm.trans hinterrupted)

theorem get_recovered_none (env : Surroundings Cid) (hget : w.files.get cid = none) :
    (env.recovered w).files.get cid = none := by
  refine (get_clearTokens_of_notMem fun hmem => ?_).trans hget
  obtain ⟨other, hother, rfl⟩ := List.mem_map.mp hmem
  rw [(mem_interruptedAdmissions.mp hother).1] at hget
  cases hget

end Recovery

/-! ## Handover -/

section Handover

variable {Cid : Type} [LinearOrder Cid] {config : PassConfig Cid} {env : Surroundings Cid}
variable {w : World Cid} {record : FileRecord Cid} {records : List (FileRecord Cid)} {cid : Cid}

/-- The peer says that it has the file. -/
def Surroundings.confirms (env : Surroundings Cid) (cid : Cid) (peer : ReplicationPeer) : Bool :=
  match env.answers peer cid with
  | .ok has => has
  | .error _ => false

/-- The file belongs on other nodes, and all of these confirm that they have it. -/
def isHandedOver (config : PassConfig Cid) (env : Surroundings Cid) (record : FileRecord Cid) :
    Bool :=
  let peers := getReplicationPeers config.site.nodes config.site.selfPeerId
  let placement := placementFor config.site.score config.site.config.placement peers
    config.site.selfPeerId record env.now
  let holders := knownHolders peers config.site.selfPeerId placement
  config.site.config.enabled && mayDemote placement && placement.copies ≤ holders.length
    && holders.all (env.confirms record.cid)

/-- The local copy of the file dropped. -/
def dropCopy (w : World Cid) (record : FileRecord Cid) : World Cid :=
  (w.unpin record.cid).saved (record.released record.state)

def dropCopies (w : World Cid) : List (FileRecord Cid) → World Cid
  | [] => w
  | record :: records => dropCopies (dropCopy w record) records

theorem get_dropCopy_of_ne (hne : cid ≠ record.cid) :
    (dropCopy w record).files.get cid = w.files.get cid :=
  World.get_saved_of_ne hne

theorem proc_dropCopies : (dropCopies w records).proc = w.proc := by
  induction records generalizing w with
  | nil => rfl
  | cons record records ih => exact ih.trans World.proc_saved

theorem get_dropCopies_of_notMem (h : cid ∉ records.map (·.cid)) :
    (dropCopies w records).files.get cid = w.files.get cid := by
  induction records generalizing w with
  | nil => rfl
  | cons record records ih =>
      rw [List.map_cons, List.mem_cons, not_or] at h
      exact (ih h.2).trans (get_dropCopy_of_ne h.1)

theorem get_dropCopies_of_mem (hnodup : (records.map (·.cid)).Nodup) (hmem : record ∈ records) :
    ∃ n, (dropCopies w records).files.get record.cid =
      some ((record.released record.state).stamped n) := by
  induction records generalizing w with
  | nil => cases hmem
  | cons first records ih =>
      rw [List.map_cons, List.nodup_cons] at hnodup
      rcases List.mem_cons.mp hmem with rfl | hmem
      · refine ⟨w.nextRevision, (get_dropCopies_of_notMem hnodup.1).trans ?_⟩
        unfold dropCopy
        rw [World.saved_valid isFileRecord_released]
        exact World.get_put.trans (if_pos rfl)
      · exact ih hnodup.2 hmem

theorem dropCopies_append {others : List (FileRecord Cid)} :
    dropCopies w (records ++ others) = dropCopies (dropCopies w records) others := by
  induction records generalizing w with
  | nil => rfl
  | cons record records ih => exact ih

theorem run_probeEach {advance : Bool} {s : Collector Cid} {peers : List ReplicationPeer} :
    Prog.run (serveHandover env advance) (probeEach cid peers) s =
      (.ok (peers.map (env.confirms cid)), s) := by
  induction peers with
  | nil => rfl
  | cons peer peers ih =>
      have hfirst : Prog.run (serveHandover env advance)
          (Prog.attempt (Prog.perform (SweepOp.probeHave peer cid))) s =
          (.ok (env.answers peer cid), s) := by
        rw [Prog.run_attempt, Prog.run_perform]
        rfl
      unfold probeEach
      rw [Prog.run_bind_ok hfirst, Prog.run_bind_ok ih, List.map_cons, Surroundings.confirms]
      cases env.answers peer cid <;> rfl

/-- A candidate that nothing touched since it was selected is dropped. -/
theorem run_demoteCopy (hget : w.files.get record.cid = some record)
    (hsettled : isSettledHeldFile w.proc record = true) :
    Prog.run (serve env.content) (demoteCopy record) w = (.ok true, dropCopy w record) := by
  unfold isSettledHeldFile at hsettled
  simp only [Bool.and_eq_true, decide_eq_true_eq, Bool.not_eq_true'] at hsettled
  obtain ⟨⟨⟨⟨hstate, hheld⟩, hdone⟩, hactive⟩, hrepair⟩ := hsettled
  have hstage := unstaged_of_confirmed (Registry.valid_of_get hget) hstate
  have hidle : isLifecycleBusy w.proc record = false := by
    simp [isLifecycleBusy, isAdmissionInFlight, hstage, hdone, hactive, hrepair]
  unfold demoteCopy
  rw [Prog.run_bind_ok run_get, hget]
  dsimp only
  rw [Prog.run_bind_ok run_process, if_neg (by simp [hstate, hheld, hidle]),
    Prog.run_bind_ok run_unpinFile,
    Prog.run_tryCatch_ok (Prog.run_bind_ok (run_save isFileRecord_released))]
  unfold dropCopy
  rw [World.saved_valid isFileRecord_released]

/-- What the candidates of a handover come to; a dry run drops nothing. -/
def Collector.afterHandover (s : Collector Cid) (dryRun : Bool) (dropped : List (FileRecord Cid)) :
    Collector Cid :=
  if dryRun then s else { s with world := dropCopies s.world dropped }

theorem Collector.afterHandover_append {s : Collector Cid} {dryRun : Bool}
    {others : List (FileRecord Cid)} : s.afterHandover dryRun (records ++ others) =
      (s.afterHandover dryRun records).afterHandover dryRun others := by
  cases dryRun with
  | true => rfl
  | false =>
      show Collector.mk _ _ = Collector.mk _ _
      rw [dropCopies_append]
      rfl

theorem run_demoteRecord (env : Surroundings Cid) (advance dryRun : Bool) (s : Collector Cid)
    (henabled : config.site.config.enabled = true) (report : DemotionReport Cid)
    (hcurrent : dryRun = false → s.world.files.get record.cid = some record ∧
      isSettledHeldFile s.world.proc record = true) :
    ∃ report', Prog.run (serveHandover env advance)
        (demoteRecord config.site.score config.site.config.placement
          (getReplicationPeers config.site.nodes config.site.selfPeerId)
          config.site.selfPeerId dryRun report record) s =
      (.ok report', s.afterHandover dryRun ([record].filter (isHandedOver config env))) ∧
      report'.demoted =
        report.demoted ++ ([record].filter (isHandedOver config env)).map (·.cid) := by
  have hkept : ∀ report' : DemotionReport Cid, report'.demoted = report.demoted →
      isHandedOver config env record = false →
      ∃ report'', ((Except.ok report', s) : Except (LifecycleError Cid) _ × Collector Cid) =
        (.ok report'', s.afterHandover dryRun ([record].filter (isHandedOver config env))) ∧
      report''.demoted =
        report.demoted ++ ([record].filter (isHandedOver config env)).map (·.cid) := by
    intro report' hdemoted hkeep
    rw [List.filter_cons_of_neg (by simp [hkeep])]
    refine ⟨report', ?_, by simpa using hdemoted⟩
    cases dryRun <;> rfl
  unfold demoteRecord
  show ∃ report', Prog.run (serveHandover env advance) (ite _ _ _) s = _ ∧ _
  split
  · rename_i hmay
    refine hkept report rfl ?_
    simp only [Bool.not_eq_true'] at hmay
    simp [isHandedOver, hmay]
  split
  · rename_i hmay hfew
    refine hkept _ rfl ?_
    simp [isHandedOver, Nat.not_le.mpr hfew]
  rename_i hmay hmany
  show ∃ report', Prog.run (serveHandover env advance) (probeEach record.cid _ >>= _) s = _ ∧ _
  rw [Prog.run_bind_ok run_probeEach]
  split
  · rename_i hall
    refine hkept _ rfl ?_
    rw [List.all_map] at hall
    simp only [Bool.not_eq_true'] at hall
    have hall : List.all _ (env.confirms record.cid) = false := hall
    simp [isHandedOver, hall]
  rename_i hall
  have hover : isHandedOver config env record = true := by
    rw [List.all_map] at hall
    simp only [Bool.not_eq_true', Bool.not_eq_false] at hall hmay
    have hall : List.all _ (env.confirms record.cid) = true := hall
    simp [isHandedOver, henabled, hmay, hall, Nat.not_lt.mp hmany]
  rw [List.filter_cons_of_pos hover]
  cases dryRun with
  | true => exact ⟨_, rfl, rfl⟩
  | false =>
      obtain ⟨hget, hsettled⟩ := hcurrent rfl
      have hserved : serveHandover env advance (.demoteCopy record) s =
          (.ok true, { s with world := dropCopy s.world record }) :=
        congrArg (fun done => (done.1, { s with world := done.2 }))
          (run_demoteCopy hget hsettled)
      exact ⟨_, Prog.run_bind_ok (Prog.run_perform.trans hserved), rfl⟩

/-- A handover drops exactly the candidates that all their holders have. -/
theorem run_demoteEach (env : Surroundings Cid) (advance dryRun : Bool) (s : Collector Cid)
    (henabled : config.site.config.enabled = true) (report : DemotionReport Cid)
    (hnodup : (records.map (·.cid)).Nodup)
    (hcurrent : dryRun = false → ∀ record ∈ records,
      s.world.files.get record.cid = some record ∧ isSettledHeldFile s.world.proc record = true) :
    ∃ report', Prog.run (serveHandover env advance)
        (demoteEach config.site.score config.site.config.placement
          (getReplicationPeers config.site.nodes config.site.selfPeerId)
          config.site.selfPeerId dryRun report records) s =
      (.ok report', s.afterHandover dryRun (records.filter (isHandedOver config env))) ∧
      report'.demoted =
        report.demoted ++ (records.filter (isHandedOver config env)).map (·.cid) := by
  induction records generalizing s report with
  | nil =>
      refine ⟨report, ?_, (List.append_nil _).symm⟩
      cases dryRun <;> rfl
  | cons record records ih =>
      rw [List.map_cons, List.nodup_cons] at hnodup
      obtain ⟨report₁, hrun₁, hdemoted₁⟩ := run_demoteRecord env advance dryRun s henabled
        report fun hreal => hcurrent hreal record List.mem_cons_self
      set s₁ := s.afterHandover dryRun ([record].filter (isHandedOver config env)) with hs₁
      have hcurrent₁ : dryRun = false → ∀ other ∈ records,
          s₁.world.files.get other.cid = some other ∧
            isSettledHeldFile s₁.world.proc other = true := by
        rintro rfl other hmem
        have hne : other.cid ≠ record.cid := fun heq =>
          hnodup.1 (heq ▸ List.mem_map_of_mem hmem)
        have hnot : other.cid ∉ ([record].filter (isHandedOver config env)).map (·.cid) := by
          intro hin
          obtain ⟨dropped, hdropped, hcid⟩ := List.mem_map.mp hin
          obtain rfl := List.mem_singleton.mp (List.mem_of_mem_filter hdropped)
          exact hne hcid.symm
        have hworld : s₁.world = dropCopies s.world ([record].filter (isHandedOver config env)) :=
          rfl
        rw [hworld, get_dropCopies_of_notMem hnot, proc_dropCopies]
        exact hcurrent rfl other (List.mem_cons_of_mem _ hmem)
      obtain ⟨report₂, hrun₂, hdemoted₂⟩ := ih s₁ report₁ hnodup.2 hcurrent₁
      unfold demoteEach
      rw [Prog.run_bind_ok hrun₁]
      refine ⟨report₂, hrun₂.trans ?_, ?_⟩
      · rw [hs₁, ← Collector.afterHandover_append, ← List.filter_append]
        rfl
      · rw [hdemoted₂, hdemoted₁, List.append_assoc, ← List.map_append, ← List.filter_append]
        rfl

/-- The files a handover takes up. -/
theorem records_batch {position : Option Cid} : (env.batch w position).records =
    (inOrder ((env.listing.records w.files).filter (isSettledHeldFile w.proc))).filter
      fun record => isNext .demote
        (((env.listing.records w.files).filter (isSettledHeldFile w.proc)).map (·.cid))
        position record.cid :=
  records_nextSweepBatch ((List.filter_sublist.map _).nodup Listing.nodup_records)

theorem mem_batch {position : Option Cid} (h : record ∈ (env.batch w position).records) :
    w.files.get record.cid = some record ∧ isSettledHeldFile w.proc record = true := by
  rw [records_batch] at h
  have hmem := List.mem_filter.mp ((List.mem_insertionSort _).mp (List.mem_of_mem_filter h))
  exact ⟨Listing.mem_records.mp hmem.1, hmem.2⟩

theorem sorted_batch {position : Option Cid} :
    (env.batch w position).records.Pairwise fun a b => a.cid < b.cid := by
  rw [records_batch]
  exact (sorted_inOrder ((List.filter_sublist.map _).nodup Listing.nodup_records)).filter _

/-- The copies a handover drops. -/
def handedOver (config : PassConfig Cid) (env : Surroundings Cid) (s : Collector Cid) :
    List (FileRecord Cid) :=
  (env.batch s.world s.position).records.filter (isHandedOver config env)

theorem mem_handedOver {s : Collector Cid} (h : record ∈ handedOver config env s) :
    s.world.files.get record.cid = some record ∧
      isSettledHeldFile s.world.proc record = true :=
  mem_batch (List.mem_of_mem_filter h)

theorem sorted_handedOver {s : Collector Cid} :
    (handedOver config env s).Pairwise fun a b => a.cid < b.cid :=
  sorted_batch.filter _

theorem nodup_of_sorted (h : records.Pairwise fun a b => a.cid < b.cid) :
    (records.map (·.cid)).Nodup :=
  List.pairwise_map.mpr (h.imp fun hlt => hlt.ne)

theorem run_demote (config : PassConfig Cid) (env : Surroundings Cid) (dryRun : Bool)
    (s : Collector Cid) :
    ∃ report s', Prog.run (servePass config env) (config.demote dryRun) s = (.ok report, s') ∧
      report.demoted = (handedOver config env s).map (·.cid) ∧
      (dryRun = true → s' = s) ∧
      (dryRun = false → s'.world = dropCopies s.world (handedOver config env s)) := by
  have hsweep : Prog.run (servePass config env) (config.demote dryRun) s =
      Prog.run (serveHandover env !dryRun) (demoteReleasableCopies config.site.score
        config.site.config config.site.nodes config.site.selfPeerId dryRun) s := Prog.run_embed
  rw [hsweep]
  unfold demoteReleasableCopies
  cases henabled : config.site.config.enabled with
  | false =>
      have hnone : handedOver config env s = [] := by
        refine List.filter_eq_nil_iff.mpr fun record _ => ?_
        simp [isHandedOver, henabled]
      rw [hnone]
      exact ⟨_, s, rfl, rfl, fun _ => rfl, fun _ => rfl⟩
  | true =>
      set s₁ := (serveHandover env (!dryRun) .nextSweepBatch s).2 with hs₁
      have hworld : s₁.world = s.world := by
        cases dryRun <;> rfl
      obtain ⟨report, hrun, hdemoted⟩ := run_demoteEach env (!dryRun) dryRun s₁ henabled
        { checked := (env.batch s.world s.position).records.length, demoted := [], kept := [] }
        (nodup_of_sorted sorted_batch) fun _ record hmem => hworld ▸ mem_batch hmem
      refine ⟨report, _, hrun, hdemoted, ?_, ?_⟩
      · rintro rfl
        rfl
      · rintro rfl
        exact congrArg (dropCopies · _) hworld

end Handover

/-! ## Collection -/

section Plan

variable {Cid : Type} [DecidableEq Cid] {measures : GcMeasures} {proc : Process Cid}
variable {records : List (FileRecord Cid)} {now : Nat}

omit [DecidableEq Cid] in
theorem evictWhileShort_sublist {estimate : Int} :
    (evictWhileShort measures records estimate).1.Sublist records := by
  induction records generalizing estimate with
  | nil => exact .refl _
  | cons record rest ih =>
      unfold evictWhileShort
      split
      · exact ih.cons_cons record
      · exact List.nil_sublist _

omit [DecidableEq Cid] in
theorem nodup_planAlive (h : (records.map (·.cid)).Nodup) :
    ((planAlive proc records now).map (·.cid)).Nodup := by
  unfold planAlive
  refine ((List.perm_insertionSort _ _).map _).nodup_iff.mpr ?_
  exact (List.filter_sublist.map _).nodup h

/-- No file is planned twice. -/
theorem nodup_released (h : (records.map (·.cid)).Nodup) :
    ((planGarbageCollection measures proc records now).released.map (·.cid)).Nodup := by
  have hinj := List.inj_on_of_nodup_map h
  have hevicted : ∃ evicted, (planGarbageCollection measures proc records now).released =
      planExpired proc records now ++ evicted ∧ evicted.Sublist (planAlive proc records now) := by
    refine ⟨_, rfl, ?_⟩
    unfold planGarbageCollection
    dsimp only
    split
    · exact evictWhileShort_sublist
    · exact List.nil_sublist _
  obtain ⟨evicted, heq, hsub⟩ := hevicted
  rw [heq, List.map_append]
  refine List.nodup_append.mpr ⟨(List.filter_sublist.map _).nodup h,
    (hsub.map _).nodup (nodup_planAlive h), ?_⟩
  intro cid hexpired cid' hcid' hsame
  obtain ⟨record, hrecord, rfl⟩ := List.mem_map.mp hexpired
  obtain ⟨other, hother, rfl⟩ := List.mem_map.mp hcid'
  have hrecord := List.mem_filter.mp hrecord
  have hother := List.mem_filter.mp ((List.mem_insertionSort _).mp (hsub.subset hother))
  obtain rfl := hinj hrecord.1 hother.1 hsame
  have hnot := hother.2
  simp only [Bool.and_eq_true, Bool.not_eq_true'] at hrecord hnot
  exact Bool.noConfusion (hrecord.2.1.2.symm.trans hnot.1.2)

end Plan

section Collect

variable {Cid : Type} [LinearOrder Cid] {config : PassConfig Cid} {env : Surroundings Cid}
variable {w : World Cid} {record : FileRecord Cid} {records : List (FileRecord Cid)} {cid : Cid}

/-- A job is done on the node and leaves the sweep alone. -/
theorem run_node {α : Type} {job : Job Cid α} {s : Collector Cid} :
    Prog.run (servePass config env) (Prog.embed PassOp.node (fun _ answer => answer) job) s =
      ((Prog.run (serveLocal env) job s.world).1,
        { s with world := (Prog.run (serveLocal env) job s.world).2 }) :=
  Prog.run_embed.trans (Prog.run_within Collector.world (fun s w => { s with world := w })
    (serveLocal env) (fun _ _ => rfl) (fun _ => rfl) (fun _ _ _ => rfl) fun _ _ => rfl)

theorem run_checkPin (env : Surroundings Cid) (dryRun : Bool) (cid : Cid) (w : World Cid) :
    GuardSteps env.content w (Prog.run (serveLocal env) (checkPin dryRun cid) w).2 ∧
      (dryRun = true → (Prog.run (serveLocal env) (checkPin dryRun cid) w).2 = w) := by
  cases dryRun with
  | true =>
      have hrun : (Prog.run (serveLocal env) (checkPin true cid) w).2 = w := rfl
      exact ⟨hrun ▸ .refl w, fun _ => hrun⟩
  | false =>
      have hrun : Prog.run (serveLocal env) (checkPin false cid) w =
          Prog.run (serve env.content) (guardPin cid) w := run_locked
      have hguard := Prog.wp_iff_runs.mp (wp_guardPin cid w) _ _ (runs_anyFault
        (runs_noFault.mpr (Prod.eta (Prog.run (serve env.content) (guardPin cid) w))))
      exact ⟨hrun ▸ hguard.steps, nofun⟩

theorem run_checkPins (env : Surroundings Cid) (dryRun : Bool)
    (records : List (FileRecord Cid)) (w : World Cid) :
    ∃ check w', Prog.run (serveLocal env) (checkPins dryRun records) w = (.ok check, w') ∧
      GuardSteps env.content w w' ∧ (dryRun = true → w' = w) := by
  induction records generalizing w with
  | nil => exact ⟨_, w, rfl, .refl w, fun _ => rfl⟩
  | cons record records ih =>
      obtain ⟨hsteps, hdry⟩ := run_checkPin env dryRun record.cid w
      obtain ⟨check, w', hrun, hsteps', hdry'⟩ :=
        ih (Prog.run (serveLocal env) (checkPin dryRun record.cid) w).2
      unfold checkPins
      rw [Prog.run_bind_ok Prog.run_attempt, Prog.run_bind_ok hrun]
      refine ⟨_, w', rfl, hsteps.trans hsteps', fun h => (hdry' h).trans (hdry h)⟩

/-- What was planned and is unchanged is released. -/
theorem run_releasePlanned_some (env : Surroundings Cid) (h : IsPlanned record w) :
    ∃ stored, (Prog.run (serve env.content) (releasePlanned record) w).1 = .ok (some stored) := by
  obtain ⟨current, hget, hrevision, hstate, hflight⟩ := h
  have hvalid := Registry.valid_of_get hget
  unfold releasePlanned
  rw [Prog.run_bind_ok run_get, hget]
  dsimp only
  rw [Prog.run_bind_ok run_process, if_neg (by simp [hrevision, hstate, hflight])]
  split
  · have hunstaged : isFileRecord (unstagedRecord current) = true := by
      unfold isFileRecord unstagedRecord at *
      simp only [Bool.and_eq_true] at hvalid ⊢
      exact ⟨hvalid.1, trivial⟩
    unfold restoreReplicaStage
    rw [Prog.run_bind_ok run_unpinFile, if_neg (by simp), Prog.run_bind_ok (run_save hunstaged)]
    exact ⟨_, rfl⟩
  · rw [Prog.run_bind_ok run_unpinFile,
      Prog.run_tryCatch_ok (Prog.run_bind_ok (run_save isFileRecord_released))]
    exact ⟨_, rfl⟩

theorem run_releaseEach (env : Surroundings Cid) (hnodup : (records.map (·.cid)).Nodup)
    (hplanned : ∀ record ∈ records, IsPlanned record w) :
    ∃ released w', Prog.run (serveLocal env) (releaseEach records) w = (.ok (released, []), w') ∧
      released.map (·.cid) = records.map (·.cid) := by
  induction records generalizing w with
  | nil => exact ⟨[], w, rfl, rfl⟩
  | cons record records ih =>
      rw [List.map_cons, List.nodup_cons] at hnodup
      have hfirst := hplanned record List.mem_cons_self
      obtain ⟨stored, hstored⟩ := run_releasePlanned_some env hfirst
      have hreleases : Releases record w _ _ := Prog.wp_iff_runs.mp wp_releasePlanned _ _
        (runs_anyFault (runs_noFault.mpr
          (Prod.eta (Prog.run (serve env.content) (releasePlanned record) w))))
      set w₁ := (Prog.run (serve env.content) (releasePlanned record) w).2 with hw₁
      have hcid : stored.cid = record.cid :=
        Registry.cid_of_get (hreleases.stored stored hstored).1
      have hplanned₁ : ∀ other ∈ records, IsPlanned other w₁ := by
        intro other hmem
        have hne : other.cid ≠ record.cid := fun heq =>
          hnodup.1 (heq ▸ List.mem_map_of_mem hmem)
        obtain ⟨current, hget, hrest⟩ := hplanned other (List.mem_cons_of_mem _ hmem)
        refine ⟨current, (hreleases.only.files _ hne).trans hget, ?_⟩
        rwa [hreleases.only.proc]
      obtain ⟨released, w', hrun, hreleased⟩ := ih hnodup.2 hplanned₁
      have hlocked : Prog.run (serveLocal env)
          (Prog.attempt (locked (.releasePlanned record))) w = (.ok (.ok (some stored)), w₁) := by
        rw [Prog.run_attempt, run_locked]
        exact Prod.ext (congrArg Except.ok hstored) rfl
      unfold releaseEach
      rw [Prog.run_bind_ok hlocked, Prog.run_bind_ok hrun]
      refine ⟨stored :: released, w', rfl, ?_⟩
      rw [List.map_cons, List.map_cons, hcid, hreleased]

theorem run_cleanupEach (env : Surroundings Cid) (records : List (FileRecord Cid))
    (w : World Cid) :
    ∃ errors w', Prog.run (serveLocal env) (cleanupEach records) w = (.ok errors, w') := by
  induction records generalizing w with
  | nil => exact ⟨_, w, rfl⟩
  | cons record records ih =>
      obtain ⟨errors, w', hrun⟩ :=
        ih (Prog.run (serveLocal env) (locked (.cleanupReleased record)) w).2
      unfold cleanupEach
      rw [Prog.run_bind_ok Prog.run_attempt, Prog.run_bind_ok hrun]
      split <;> exact ⟨_, _, rfl⟩

/-- Deletion leaves the lists of the report. -/
theorem run_collectReleased (env : Surroundings Cid) (records : List (FileRecord Cid))
    (report : GcReport Cid) (w : World Cid) :
    ∃ report' w', Prog.run (serveLocal env) (collectReleased records report) w =
        (.ok report', w') ∧ report'.dryRun = report.dryRun ∧
      report'.releasedCids = report.releasedCids ∧ report'.retainedCids = report.retainedCids := by
  unfold collectReleased
  show ∃ report' w', Prog.run (serveLocal env) (ite _ _ _) _ = _ ∧ _
  split
  · exact ⟨_, _, rfl, rfl, rfl, rfl⟩
  · obtain ⟨errors, w', hcleanup⟩ := run_cleanupEach env records _
    rw [Prog.run_bind_ok hcleanup]
    exact ⟨_, _, rfl, rfl, rfl, rfl⟩

/-- A collection reports its plan: a dry run because it stops there, a real run
because all of the plan succeeds. -/
theorem run_runGarbageCollection (env : Surroundings Cid) (options : GcRunOptions) (w : World Cid) :
    ∃ report w', Prog.run (serveLocal env) (runGarbageCollection options) w = (.ok report, w') ∧
      report.dryRun = options.dryRun ∧
      report.releasedCids = (options.plan (env.scan w)).released.map (·.cid) ∧
      report.retainedCids = (options.plan (env.scan w)).retained.map (·.cid) ∧
      (options.dryRun = true → w' = w) := by
  have hscan : Prog.run (serveLocal env) (locked .scanRegistry) w = (.ok (env.scan w), w) :=
    run_locked
  obtain ⟨plan, hplan⟩ : ∃ plan, options.plan (env.scan w) = plan := ⟨_, rfl⟩
  obtain ⟨check, w₁, hcheck, hsteps, hdry⟩ :=
    run_checkPins env options.dryRun plan.heldConfirmed w
  unfold runGarbageCollection
  rw [Prog.run_bind_ok hscan, hplan, Prog.run_bind_ok hcheck]
  unfold applyPlan
  cases hmode : options.dryRun with
  | true =>
      rw [if_pos rfl]
      exact ⟨_, _, rfl, hmode, rfl, rfl, fun _ => hdry hmode⟩
  | false =>
      rw [if_neg Bool.noConfusion]
      split
      · exact ⟨_, _, rfl, hmode, rfl, rfl, nofun⟩
      have hplanned : ∀ record ∈ plan.released, IsPlanned record w₁ := by
        intro record hmem
        obtain ⟨hrecord, hstate, hflight⟩ := mem_released (hplan ▸ hmem)
        have hget := Listing.mem_records.mp hrecord
        have hkept : w₁.files.get record.cid = w.files.get record.cid := by
          refine (hsteps.record record.cid).resolve_right ?_
          rintro ⟨⟨current, hcurrent, hconfirmed, -⟩, -⟩
          rw [hget] at hcurrent
          cases hcurrent
          exact hstate hconfirmed
        exact ⟨record, hkept.trans hget, rfl, hstate, hsteps.proc ▸ hflight⟩
      have hnodup : (plan.released.map (·.cid)).Nodup :=
        hplan ▸ nodup_released Listing.nodup_records
      obtain ⟨released, w₂, hrelease, hcids⟩ := run_releaseEach env hnodup hplanned
      rw [Prog.run_bind_ok hrelease]
      dsimp only
      split
      · exact ⟨_, _, rfl, hmode, hcids, rfl, nofun⟩
      · obtain ⟨report, w₃, hrun, hreal, hreleased, hretained⟩ := run_collectReleased env released
          { plan.report options check with
            releasedCids := released.map (·.cid)
            errors := (plan.report options check).errors ++ [] } w₂
        exact ⟨report, w₃, hrun, hreal.trans hmode, hreleased.trans hcids, hretained, nofun⟩

end Collect

/-! ## The pass -/

section Whole

variable {Cid : Type} [LinearOrder Cid] (config : PassConfig Cid) (env : Surroundings Cid)

/-- What a collection goes by when it starts on the node as it is. -/
def measuresFor (w : World Cid) : GcMeasures :=
  (config.gcOptions ⟨false, false⟩ (env.metrics config w) env.now).measures

/-- What it plans then. -/
def planFor (w : World Cid) : GcPlan Cid :=
  planGarbageCollection (measuresFor config env w) w.proc (env.listing.records w.files) env.now

/-- The node once its interrupted uploads were recovered. -/
def Collector.recovered (s : Collector Cid) : Collector Cid :=
  { s with world := env.recovered s.world }

/-- The node as a real pass measures it: recovered, and with copies handed over. -/
def measuredWorld (s : Collector Cid) : World Cid :=
  dropCopies (env.recovered s.world) (handedOver config env (s.recovered env))

/-- What a pass reports of a plan and a handover. -/
structure ReportsPlan (report : CollectionReport Cid) (plan : GcPlan Cid)
    (dropped : List (FileRecord Cid)) : Prop where
  released : report.releasedCids = plan.released.map (·.cid)
  retained : report.retainedCids = plan.retained.map (·.cid)
  demoted : report.demoted = dropped.map (·.cid)

variable {config env}

theorem run_collectStorage (config : PassConfig Cid) (env : Surroundings Cid)
    (options : PassOptions) (s : Collector Cid) :
    ∃ report s' w', Prog.run (servePass config env) (collectStorage config options) s =
        (.ok report, s') ∧ report.dryRun = options.dryRun ∧
      ReportsPlan report (planFor config env w') (handedOver config env s) ∧
      (options.dryRun = true → w' = s.world ∧ s' = s) ∧
      (options.dryRun = false → w' = dropCopies s.world (handedOver config env s)) := by
  obtain ⟨handover, s₁, hdemote, hdemoted, hdry, hreal⟩ :=
    run_demote config env options.dryRun s
  obtain ⟨report, w', hcollect, hmode, hreleased, hretained, hsame⟩ := run_runGarbageCollection
    env (config.gcOptions options (env.metrics config s₁.world) env.now) s₁.world
  have hrun : Prog.run (servePass config env) (collectStorage config options) s =
      (.ok { report with demoted := handover.demoted }, { s₁ with world := w' }) := by
    unfold collectStorage
    rw [Prog.run_bind_ok hdemote]
    refine Prog.run_bind_ok (run_node.trans ?_)
    exact congrArg (fun done => (done.1, { s₁ with world := done.2 })) hcollect
  refine ⟨_, _, s₁.world, hrun, hmode, ⟨hreleased, hretained, hdemoted⟩, ?_, ?_⟩
  · intro h
    obtain rfl := hdry h
    exact ⟨rfl, by rw [hsame h]⟩
  · exact hreal

/-- A dry run reports the plan for the node as it is, and changes nothing. -/
theorem runPass_dry (config : PassConfig Cid) (env : Surroundings Cid) (force : Bool)
    (s : Collector Cid) :
    ∃ report, runPass config env ⟨true, force⟩ s = (.ok report, s) ∧
      ReportsPlan report (planFor config env s.world) (handedOver config env s) := by
  obtain ⟨report, s', w', hrun, hmode, hreports, hdry, -⟩ :=
    run_collectStorage config env ⟨true, force⟩ s
  obtain ⟨rfl, rfl⟩ := hdry rfl
  refine ⟨report, ?_, hreports⟩
  unfold runPass collectGarbage
  refine (Prog.run_bind_ok (f := _) hrun).trans ?_
  rw [if_pos hmode]
  rfl

/-- A real run reports the plan for the node it has recovered and handed over from. -/
theorem runPass_real (config : PassConfig Cid) (env : Surroundings Cid) (force : Bool)
    (s : Collector Cid) :
    ∃ report s', runPass config env ⟨false, force⟩ s = (.ok report, s') ∧
      ReportsPlan report (planFor config env (measuredWorld config env s))
        (handedOver config env (s.recovered env)) := by
  obtain ⟨report, s', w', hrun, hmode, hreports, -, hreal⟩ :=
    run_collectStorage config env ⟨false, force⟩ (s.recovered env)
  obtain rfl := hreal rfl
  refine ⟨report, s', ?_, hreports⟩
  have hrecover : Prog.run (servePass config env) recoverStaleAdmissions s =
      (.ok (), s.recovered env) := by
    refine run_node.trans ?_
    rw [run_recoverInterruptedAdmissions]
    rfl
  unfold runPass collectGarbage
  refine (Prog.run_bind_ok hrecover).trans ((Prog.run_bind_ok hrun).trans ?_)
  rw [if_neg (by rw [hmode]; exact Bool.noConfusion)]
  rfl

end Whole

end IpfsNode
